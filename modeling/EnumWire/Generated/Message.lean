import EnumWire.Generated.Field

/-! # The source of a message

A struct with its default, a size cache that only the size computation can build, and one block of
methods. The fragments of the fields stand in declaration order wherever they occur. -/
namespace EnumWire.Message

def placeholders (message : Message) : Variables :=
  [("classname", Names.escape message.name), ("size_cache", Names.sizeCache message.name)]

def say (message : Message) (ls : List Text) : Script :=
  [.print message.placeholders (Text.lines ls)]

def hasSizeCache (message : Message) : Bool := message.fields.any Field.hasSizeCache

def structScript (params : Params) (message : Message) : Script :=
  message.say [
    "/* message $classname$ */",
    "#[derive(Debug, Clone, PartialEq, Eq)]",
    "pub struct $classname$ \x7b"] ++
  Script.nested (message.fields.flatMap (Field.members params)) ++
  [.raw "\x7d\n\n"]

def defaultScript (params : Params) (message : Message) : Script :=
  message.say [
    "impl Default for $classname$ \x7b",
    "    fn default() -> Self \x7b",
    "        Self \x7b"] ++
  Script.nested (Script.nested (Script.nested
    (message.fields.flatMap (Field.initialization params)))) ++
  [.raw "        \x7d\n    \x7d\n\x7d\n\n"]

def sizeCacheScript (params : Params) (message : Message) : Script :=
  message.say [
    "/// Packed payload lengths computed by `$classname$::compute_size`.",
    "#[derive(Debug, Clone, Copy, PartialEq, Eq)]",
    "pub struct $size_cache$ \x7b"] ++
  Script.nested (message.fields.flatMap (Field.cacheMembers params)) ++
  [.raw "\x7d\n\n"] ++
  (if message.hasSizeCache then
    message.say ["impl $size_cache$ \x7b"] ++
    Script.nested (message.fields.flatMap (Field.cacheAccessors params)) ++
    [.raw "\x7d\n\n"]
  else [])

/-- A field is present when it differs from its default. -/
def presenceScript (params : Params) (field : Field) : Script :=
  [.print [("name", Names.field field), ("has_name", Names.presenceAccessor field),
      ("default", Names.defaultRef params field)]
    (Text.lines [
      "pub fn $has_name$(&self) -> bool \x7b",
      "    self.$name$ != $default$",
      "\x7d",
      ""])]

def presenceAccessors (params : Params) (message : Message) : Script :=
  (message.fields.filter fun field => field.kind = .singular).flatMap (presenceScript params)

def mergeScript (params : Params) (message : Message) : Script :=
  let other : Text := if message.fields.isEmpty then "_other" else "other"
  [.raw ("pub fn merge_from(&mut self, " ++ other ++ ": &Self) \x7b\n")] ++
  Script.nested (message.fields.flatMap (Field.merging params)) ++
  [.raw "\x7d\n\n"]

/-- An arm of the dispatch on the tag. -/
def armScript (params : Params) (field : Field) (arm : Arm) : Script :=
  [.raw (Text.ofNat arm.tag.toNat ++ " => \x7b\n")] ++
  Script.nested (field.intake params arm.intake) ++
  [.raw "\x7d\n"]

def fieldArms (params : Params) (field : Field) : Script :=
  field.arms.flatMap (armScript params field)

/-- The lines that open the dispatch on the tag; the end of the input ends it. -/
def dispatchLines : List Text := [
  "pub fn merge_from_input(&mut self, input: &mut nano::CodedInputStream<'_>) -> nano::DecodeResult<()> \x7b",
  "    loop \x7b",
  "        let tag = input.read_tag()?;",
  "        match tag \x7b",
  "            0 => return Ok(()),"]

def parseScript (params : Params) (message : Message) : Script :=
  [.raw (Text.lines dispatchLines)] ++
  Script.nested (Script.nested (Script.nested
    (message.fields.flatMap (fieldArms params) ++ [.raw "_ => input.skip_field(tag)?,\n"]))) ++
  [.raw "        \x7d\n    \x7d\n\x7d\n\n"]

def sizeScript (params : Params) (message : Message) : Script :=
  message.say [
    "/// Returns the encoded length and the payload lengths `write_to` needs.",
    "pub fn compute_size(&self) -> (usize, $size_cache$) \x7b",
    "    let mut size = 0;",
    "    let mut size_cache = $size_cache$ \x7b"] ++
  Script.nested (
    Script.nested (message.fields.flatMap (Field.cacheInitialization params)) ++
    [.raw "\x7d;\n"] ++
    message.fields.flatMap (Field.size params) ++
    [.raw "(size, size_cache)\n"]) ++
  [.raw "\x7d\n\n"]

/-- A parameter that no fragment reads has a leading underscore. -/
def writeScript (params : Params) (message : Message) : Script :=
  let cacheArg : Text := if message.hasSizeCache then "size_cache" else "_size_cache"
  let outputArg : Text := if message.fields.isEmpty then "_output" else "output"
  let arguments : Variables := [("size_cache_arg", cacheArg), ("output_arg", outputArg)]
  [.print (message.placeholders ++ arguments)
    (Text.lines [
      "/// Serializes with payload lengths from the `compute_size` call made on this unchanged message.",
      "pub fn write_to(&self, $output_arg$: &mut nano::CodedOutputStream, $size_cache_arg$: &$size_cache$) \x7b"])] ++
  Script.nested (message.fields.flatMap (Field.serialization params)) ++
  [.raw "\x7d\n\n"]

def codecHelperLines : List Text := [
  "pub fn encode_to_vec(&self) -> Vec<u8> \x7b",
  "    let (size, size_cache) = self.compute_size();",
  "    let mut output = nano::CodedOutputStream::with_capacity(size);",
  "    self.write_to(&mut output, &size_cache);",
  "    debug_assert_eq!(output.len(), size);",
  "    output.into_inner()",
  "\x7d",
  "",
  "pub fn decode(bytes: &[u8]) -> nano::DecodeResult<Self> \x7b",
  "    let mut message = Self::default();",
  "    message.merge_from_input(&mut nano::CodedInputStream::new(bytes))?;",
  "    Ok(message)",
  "\x7d"]

def codecHelpers : Script := [.raw (Text.lines codecHelperLines)]

def script (params : Params) (message : Message) : Script :=
  message.structScript params ++
  message.defaultScript params ++
  message.sizeCacheScript params ++
  message.say ["impl $classname$ \x7b"] ++
  Script.nested (
    message.presenceAccessors params ++
    message.mergeScript params ++
    message.parseScript params ++
    message.sizeScript params ++
    message.writeScript params ++
    codecHelpers) ++
  [.raw "\x7d\n\n"]

end EnumWire.Message
