import EnumWire.Generated.Message

/-! # The source of a message as a structure

What the source of a message declares and uses, part by part: members, methods, bindings, and for
each field the statements that merge, read, measure and write it. Every part has its text, and names
can be collected from the parts. -/
namespace EnumWire

namespace MessageSource

/-- The condition that a member differs from a constant. -/
structure Comparison where
  member : Text
  constant : Text
  deriving DecidableEq

def Comparison.text (comparison : Comparison) : Text :=
  "self." ++ comparison.member ++ " != " ++ comparison.constant

/-- A method that tells whether a field is present. -/
structure Accessor where
  name : Text
  comparison : Comparison
  deriving DecidableEq

def Accessor.text (accessor : Accessor) : Text :=
  Text.lines [
    "pub fn " ++ accessor.name ++ "(&self) -> bool \x7b",
    "    " ++ accessor.comparison.text,
    "\x7d",
    ""]

/-- A member of the message, with a comment on where it comes from. -/
structure Member where
  messageName : Text
  title : Text
  number : UInt32
  name : Text
  type : Text
  deriving DecidableEq

def Member.text (member : Member) : Text :=
  Text.lines [
    "/* " ++ member.messageName ++ "." ++ member.title ++ " = " ++
      Text.ofNat member.number.toNat ++ " */",
    "pub " ++ member.name ++ ": " ++ member.type ++ ","]

/-- What a member of the message holds at first. -/
inductive Initial where
  | constant (member expression : Text)
  | empty (member : Text)
  deriving DecidableEq

namespace Initial

def text : Initial → Text
  | .constant member expression => Text.lines [member ++ ": " ++ expression ++ ","]
  | .empty member => Text.lines [member ++ ": Vec::new(),"]

def constant? : Initial → Option Text
  | .constant _ expression => some expression
  | .empty _ => none

end Initial

/-- How a member is taken over from another message. -/
inductive Merging where
  /-- Where an accessor of the other message says that it is present. -/
  | present (accessor member : Text)
  | extend (member : Text)
  deriving DecidableEq

namespace Merging

def text : Merging → Text
  | .present accessor member => Text.lines [
      "if other." ++ accessor ++ "() \x7b",
      "    self." ++ member ++ " = other." ++ member ++ ";",
      "\x7d"]
  | .extend member => Text.lines [
      "self." ++ member ++ ".extend_from_slice(&other." ++ member ++ ");"]

def called? : Merging → Option Text
  | .present accessor _ => some accessor
  | .extend _ => none

end Merging

/-- An arm of the dispatch on the tag, with the member that it reads into. -/
structure ArmSource where
  arm : Arm
  member : Text
  /-- The tag before each element that follows the first one. -/
  elementTag : Wire.Tag
  deriving DecidableEq

namespace ArmSource

def body (source : ArmSource) : Text :=
  match source.arm.intake with
  | .value => Text.lines ["self." ++ source.member ++ " = input.read_int32()?;"]
  | .elements => Text.lines [
      "let array_length = nano::repeated_field_array_length(input, " ++
        Text.ofNat source.elementTag.toNat ++ ")?;",
      "self." ++ source.member ++ ".reserve_exact(array_length);",
      "for _ in 1..array_length \x7b",
      "    self." ++ source.member ++ ".push(input.read_int32()?);",
      "    input.read_tag()?;",
      "\x7d",
      "// Last one without read_tag.",
      "self." ++ source.member ++ ".push(input.read_int32()?);"]
  | .packedRun replaces =>
    Text.lines [
      "let length = input.read_raw_varint32()? as usize;",
      "let limit = input.push_limit(length)?;",
      "let array_length = nano::packed_repeated_field_array_length(input)?;"] ++
    ((if replaces then Text.lines ["self." ++ source.member ++ ".clear();"] else []) ++
    Text.lines [
      "self." ++ source.member ++ ".reserve_exact(array_length);",
      "for _ in 0..array_length \x7b",
      "    self." ++ source.member ++ ".push(input.read_int32()?);",
      "\x7d",
      "input.pop_limit(limit);"])

def text (source : ArmSource) : Text :=
  Text.lines [Text.ofNat source.arm.tag.toNat ++ " => \x7b"] ++
    Printer.indented 1 true source.body ++ Text.lines ["\x7d"]

end ArmSource

/-- Lines that hold where a repeated member is not empty. -/
def unlessEmpty (member : Text) (body : List Text) : Text :=
  Text.lines ["if !self." ++ member ++ ".is_empty() \x7b"] ++
    Printer.indented 1 true (Text.lines body)

/-- How the encoded length of a member is added up. -/
inductive Sizing where
  | present (guard : Comparison) (tagSize : Nat)
  | elements (member : Text) (tagSize : Nat)
  /-- The payload length is kept in the size cache, as zero where there is no element. -/
  | packed (member : Text) (tagSize : Nat) (kept reset : Text)
  deriving DecidableEq

namespace Sizing

def dataSize (member : Text) : List Text := [
  "let data_size: usize = self",
  "    ." ++ member,
  "    .iter()",
  "    .map(|&element| nano::compute_int32_size_no_tag(element))",
  "    .sum();",
  "size += data_size;"]

def text : Sizing → Text
  | .present guard tagSize => Text.lines [
      "if " ++ guard.text ++ " \x7b",
      "    size += " ++ Text.ofNat tagSize ++ " + nano::compute_int32_size_no_tag(self." ++
        guard.member ++ ");",
      "\x7d"]
  | .elements member tagSize =>
    unlessEmpty member (dataSize member ++ [
      "size += " ++ Text.ofNat tagSize ++ " * self." ++ member ++ ".len();"]) ++
    Text.lines ["\x7d"]
  | .packed member tagSize kept reset =>
    unlessEmpty member (dataSize member ++ [
      "size += " ++ Text.ofNat tagSize ++ ";",
      "size += nano::compute_raw_varint32_size(data_size as u32);",
      "size_cache." ++ kept ++ " = data_size;"]) ++
    Text.lines [
      "\x7d else \x7b",
      "    size_cache." ++ reset ++ " = 0;",
      "\x7d"]

def guard? : Sizing → Option Comparison
  | .present guard _ => some guard
  | .elements _ _ => none
  | .packed _ _ _ _ => none

/-- The member of the size cache that is set where there are elements. -/
def kept? : Sizing → Option Text
  | .present _ _ => none
  | .elements _ _ => none
  | .packed _ _ kept _ => some kept

/-- The member of the size cache that is set where there are none. -/
def reset? : Sizing → Option Text
  | .present _ _ => none
  | .elements _ _ => none
  | .packed _ _ _ reset => some reset

end Sizing

/-- How a member is written. -/
inductive Writing where
  | present (guard : Comparison) (tag : Wire.Tag)
  | elements (member : Text) (tag : Wire.Tag)
  /-- The payload length comes from the size cache. -/
  | packed (member : Text) (tag : Wire.Tag) (cached : Text)
  deriving DecidableEq

namespace Writing

def writesTag (tag : Wire.Tag) : Text :=
  "output.write_raw_varint32(" ++ Text.ofNat tag.toNat ++ ");"

def text : Writing → Text
  | .present guard tag => Text.lines [
      "if " ++ guard.text ++ " \x7b",
      "    " ++ writesTag tag,
      "    output.write_int32_no_tag(self." ++ guard.member ++ ");",
      "\x7d"]
  | .elements member tag =>
    unlessEmpty member [
      "for &element in &self." ++ member ++ " \x7b",
      "    " ++ writesTag tag,
      "    output.write_int32_no_tag(element);",
      "\x7d"] ++
    Text.lines ["\x7d"]
  | .packed member tag cached =>
    unlessEmpty member [
      writesTag tag,
      "output.write_raw_varint32(size_cache." ++ cached ++ " as u32);",
      "for &element in &self." ++ member ++ " \x7b",
      "    output.write_int32_no_tag(element);",
      "\x7d"] ++
    Text.lines ["\x7d"]

def guard? : Writing → Option Comparison
  | .present guard _ => some guard
  | .elements _ _ => none
  | .packed _ _ _ => none

/-- The member of the size cache that is read. -/
def cached? : Writing → Option Text
  | .present _ _ => none
  | .elements _ _ => none
  | .packed _ _ cached => some cached

end Writing

/-- A method of the size cache that answers one of its members. -/
structure CacheAccessor where
  name : Text
  member : Text
  deriving DecidableEq

def CacheAccessor.text (accessor : CacheAccessor) : Text :=
  Text.lines [
    "/* Encoded payload length of " ++ accessor.member ++ ", without tag and length prefix */",
    "pub fn " ++ accessor.name ++ "(&self) -> usize \x7b",
    "    self." ++ accessor.member,
    "\x7d"]

end MessageSource

open MessageSource in
structure MessageSource where
  name : Text
  members : List Member
  initial : List Initial
  cacheName : Text
  cacheMembers : List Text
  cacheAccessors : List CacheAccessor
  accessors : List Accessor
  /-- What merging calls the other message. -/
  otherName : Text
  merging : List Merging
  arms : List ArmSource
  /-- The members with which the size computation starts its size cache. -/
  cacheStart : List Text
  sizing : List Sizing
  /-- What writing calls the output. -/
  outputName : Text
  /-- What writing calls the size cache. -/
  cacheBinding : Text
  writing : List Writing
  deriving DecidableEq

namespace MessageSource

variable (source : MessageSource)

def structText : Text :=
  Text.lines [
    "/* message " ++ source.name ++ " */",
    "#[derive(Debug, Clone, PartialEq, Eq)]",
    "pub struct " ++ source.name ++ " \x7b"] ++
  Printer.indented 1 true (source.members.flatMap Member.text) ++
  Text.lines ["\x7d", ""]

def defaultText : Text :=
  Text.lines [
    "impl Default for " ++ source.name ++ " \x7b",
    "    fn default() -> Self \x7b",
    "        Self \x7b"] ++
  Printer.indented 3 true (source.initial.flatMap Initial.text) ++
  Text.lines ["        \x7d", "    \x7d", "\x7d", ""]

/-- A size cache without members has no methods. -/
def cacheText : Text :=
  Text.lines [
    "/// Packed payload lengths computed by `" ++ source.name ++ "::compute_size`.",
    "#[derive(Debug, Clone, Copy, PartialEq, Eq)]",
    "pub struct " ++ source.cacheName ++ " \x7b"] ++
  Printer.indented 1 true (source.cacheMembers.flatMap fun name => Text.lines [name ++ ": usize,"]) ++
  Text.lines ["\x7d", ""] ++
  (if source.cacheAccessors = [] then []
  else
    Text.lines ["impl " ++ source.cacheName ++ " \x7b"] ++
    Printer.indented 1 true (source.cacheAccessors.flatMap CacheAccessor.text) ++
    Text.lines ["\x7d", ""])

def mergeText : Text :=
  Text.lines ["pub fn merge_from(&mut self, " ++ source.otherName ++ ": &Self) \x7b"] ++
  Printer.indented 1 true (source.merging.flatMap Merging.text) ++
  Text.lines ["\x7d", ""]

def parseText : Text :=
  Text.lines Message.dispatchLines ++
  Printer.indented 3 true
    (source.arms.flatMap ArmSource.text ++ Text.lines ["_ => input.skip_field(tag)?,"]) ++
  Text.lines ["        \x7d", "    \x7d", "\x7d", ""]

def sizeText : Text :=
  Text.lines [
    "/// Returns the encoded length and the payload lengths `write_to` needs.",
    "pub fn compute_size(&self) -> (usize, " ++ source.cacheName ++ ") \x7b",
    "    let mut size = 0;",
    "    let mut size_cache = " ++ source.cacheName ++ " \x7b"] ++
  Printer.indented 1 true (
    Printer.indented 1 true (source.cacheStart.flatMap fun name => Text.lines [name ++ ": 0,"]) ++
    Text.lines ["\x7d;"] ++
    source.sizing.flatMap Sizing.text ++
    Text.lines ["(size, size_cache)"]) ++
  Text.lines ["\x7d", ""]

def writeText : Text :=
  Text.lines [
    "/// Serializes with payload lengths from the `compute_size` call made on this unchanged message.",
    "pub fn write_to(&self, " ++ source.outputName ++ ": &mut nano::CodedOutputStream, " ++
      source.cacheBinding ++ ": &" ++ source.cacheName ++ ") \x7b"] ++
  Printer.indented 1 true (source.writing.flatMap Writing.text) ++
  Text.lines ["\x7d", ""]

def implText : Text :=
  Text.lines ["impl " ++ source.name ++ " \x7b"] ++
  Printer.indented 1 true (
    source.accessors.flatMap Accessor.text ++ source.mergeText ++ source.parseText ++
    source.sizeText ++ source.writeText ++ Text.lines Message.codecHelperLines) ++
  Text.lines ["\x7d", ""]

def text : Text :=
  source.structText ++ source.defaultText ++ source.cacheText ++ source.implText

end MessageSource

/-! ### The source of a resolved message -/

namespace Field

open MessageSource

variable (params : Params) (field : Field)

def comparison : Comparison := ⟨Names.field field, Names.defaultRef params field⟩

def accessor : Accessor := ⟨Names.presenceAccessor field, field.comparison params⟩

def member : Member where
  messageName := field.messageName
  title := CaseStyle.camel field.name
  number := field.number
  name := Names.field field
  type :=
    match field.kind with
    | .singular => "i32"
    | _ => "Vec<i32>"

def initial : Initial :=
  match field.kind with
  | .singular => .constant (Names.field field) (Names.defaultRef params field)
  | _ => .empty (Names.field field)

def mergingSource : Merging :=
  match field.kind with
  | .singular => .present (Names.presenceAccessor field) (Names.field field)
  | _ => .extend (Names.field field)

def armSources : List ArmSource :=
  field.arms.map fun arm => ⟨arm, Names.field field, field.elementTag⟩

def sizing : Sizing :=
  match field.kind with
  | .singular => .present (field.comparison params) field.tagSize
  | .repeated => .elements (Names.field field) field.tagSize
  | .packed =>
    .packed (Names.field field) field.tagSize (Names.field field) (Names.field field)

def writing : Writing :=
  match field.kind with
  | .singular => .present (field.comparison params) field.tag
  | .repeated => .elements (Names.field field) field.tag
  | .packed => .packed (Names.field field) field.tag (Names.field field)

end Field

namespace Message

/-- The names of the packed fields, in declaration order. -/
def packedNames (message : Message) : List Text :=
  (message.fields.filter fun field => field.kind = .packed).map Names.field

def singularFields (message : Message) : List Field :=
  message.fields.filter fun field => field.kind = .singular

def source (params : Params) (message : Message) : MessageSource where
  name := Names.escape message.name
  members := message.fields.map Field.member
  initial := message.fields.map (Field.initial params)
  cacheName := Names.sizeCache message.name
  cacheMembers := message.packedNames
  cacheAccessors := message.packedNames.map fun name => ⟨name, name⟩
  accessors := message.singularFields.map (Field.accessor params)
  otherName := if message.fields.isEmpty then "_other" else "other"
  merging := message.fields.map Field.mergingSource
  arms := message.fields.flatMap Field.armSources
  cacheStart := message.packedNames
  sizing := message.fields.map (Field.sizing params)
  outputName := if message.fields.isEmpty then "_output" else "output"
  cacheBinding := if message.hasSizeCache then "size_cache" else "_size_cache"
  writing := message.fields.map (Field.writing params)

end Message
end EnumWire
