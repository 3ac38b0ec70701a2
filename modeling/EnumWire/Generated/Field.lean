import EnumWire.Descriptor.Arm
import EnumWire.Generated.Names
import EnumWire.Printer.Basic

/-! # What a field contributes to the source of its message

Each fragment goes to another region of the message and may be asked for on its own. The fragments
assume the bindings `self`, `other` when merging, `input` when parsing, `output` and `size_cache`
when writing, and `size` and `size_cache` when computing the size. -/
namespace EnumWire.Field

def placeholders (params : Params) (field : Field) : Variables :=
  [("name", Names.field field),
   ("has_name", Names.presenceAccessor field),
   ("capitalized_name", CaseStyle.camel field.name),
   ("number", Text.ofNat field.number.toNat),
   ("type", "i32"),
   ("default", Names.defaultRef params field),
   ("tag", Text.ofNat field.tag.toNat),
   ("unpacked_tag", Text.ofNat field.elementTag.toNat),
   ("tag_size", Text.ofNat field.tagSize),
   ("message_name", field.messageName)]

/-- Prints lines with the placeholders of the field. -/
def say (params : Params) (field : Field) (ls : List Text) : Script :=
  [.print (field.placeholders params) (Text.lines ls)]

def members (params : Params) (field : Field) : Script :=
  field.say params ["/* $message_name$.$capitalized_name$ = $number$ */"] ++
  field.say params [
    match field.kind with
    | .singular => "pub $name$: $type$,"
    | _ => "pub $name$: Vec<$type$>,"]

def initialization (params : Params) (field : Field) : Script :=
  field.say params [
    match field.kind with
    | .singular => "$name$: $default$,"
    | _ => "$name$: Vec::new(),"]

def merging (params : Params) (field : Field) : Script :=
  match field.kind with
  | .singular =>
    field.say params [
      "if other.$has_name$() \x7b",
      "    self.$name$ = other.$name$;",
      "\x7d"]
  | _ => field.say params ["self.$name$.extend_from_slice(&other.$name$);"]

/-- The body of an arm. The tag that has been read accounts for the first element of several. -/
def intake (params : Params) (field : Field) : Intake → Script
  | .value => field.say params ["self.$name$ = input.read_int32()?;"]
  | .elements =>
    field.say params [
      "let array_length = nano::repeated_field_array_length(input, $unpacked_tag$)?;",
      "self.$name$.reserve_exact(array_length);",
      "for _ in 1..array_length \x7b",
      "    self.$name$.push(input.read_int32()?);",
      "    input.read_tag()?;",
      "\x7d",
      "// Last one without read_tag.",
      "self.$name$.push(input.read_int32()?);"]
  | .packedRun replaces =>
    field.say params [
      "let length = input.read_raw_varint32()? as usize;",
      "let limit = input.push_limit(length)?;",
      "let array_length = nano::packed_repeated_field_array_length(input)?;"] ++
    (if replaces then field.say params ["self.$name$.clear();"] else []) ++
    field.say params [
      "self.$name$.reserve_exact(array_length);",
      "for _ in 0..array_length \x7b",
      "    self.$name$.push(input.read_int32()?);",
      "\x7d",
      "input.pop_limit(limit);"]

def parsing (params : Params) (field : Field) : Script :=
  field.intake params field.declaredArm.intake

def alternateParsing (params : Params) (field : Field) : Script :=
  match field.alternateArm? with
  | some arm => field.intake params arm.intake
  | none => []

/-- Lines that hold where a repeated field is not empty. -/
def unlessEmpty (params : Params) (field : Field) (body : Script) : Script :=
  field.say params ["if !self.$name$.is_empty() \x7b"] ++ Script.nested body

def serialization (params : Params) (field : Field) : Script :=
  match field.kind with
  | .singular =>
    field.say params [
      "if self.$name$ != $default$ \x7b",
      "    output.write_raw_varint32($tag$);",
      "    output.write_int32_no_tag(self.$name$);",
      "\x7d"]
  | .repeated =>
    field.unlessEmpty params (
      field.say params [
        "for &element in &self.$name$ \x7b",
        "    output.write_raw_varint32($tag$);",
        "    output.write_int32_no_tag(element);",
        "\x7d"]) ++
    [.raw "\x7d\n"]
  | .packed =>
    field.unlessEmpty params (
      field.say params [
        "output.write_raw_varint32($tag$);",
        "output.write_raw_varint32(size_cache.$name$ as u32);",
        "for &element in &self.$name$ \x7b",
        "    output.write_int32_no_tag(element);",
        "\x7d"]) ++
    [.raw "\x7d\n"]

def dataSize (params : Params) (field : Field) : Script :=
  field.say params [
    "let data_size: usize = self",
    "    .$name$",
    "    .iter()",
    "    .map(|&element| nano::compute_int32_size_no_tag(element))",
    "    .sum();",
    "size += data_size;"]

/-- An empty packed field must not leave an earlier payload length behind. -/
def size (params : Params) (field : Field) : Script :=
  match field.kind with
  | .singular =>
    field.say params [
      "if self.$name$ != $default$ \x7b",
      "    size += $tag_size$ + nano::compute_int32_size_no_tag(self.$name$);",
      "\x7d"]
  | .repeated =>
    field.unlessEmpty params (
      field.dataSize params ++
      field.say params ["size += $tag_size$ * self.$name$.len();"]) ++
    [.raw "\x7d\n"]
  | .packed =>
    field.unlessEmpty params (
      field.dataSize params ++
      field.say params [
        "size += $tag_size$;",
        "size += nano::compute_raw_varint32_size(data_size as u32);",
        "size_cache.$name$ = data_size;"]) ++
    field.say params [
      "\x7d else \x7b",
      "    size_cache.$name$ = 0;",
      "\x7d"]

/-- Whether the field keeps a payload length in the size cache of its message. -/
def hasSizeCache (field : Field) : Bool := field.kind = .packed

def cacheMembers (params : Params) (field : Field) : Script :=
  if field.hasSizeCache then field.say params ["$name$: usize,"] else []

def cacheInitialization (params : Params) (field : Field) : Script :=
  if field.hasSizeCache then field.say params ["$name$: 0,"] else []

def cacheAccessors (params : Params) (field : Field) : Script :=
  if field.hasSizeCache then
    field.say params [
      "/* Encoded payload length of $name$, without tag and length prefix */",
      "pub fn $name$(&self) -> usize \x7b",
      "    self.$name$",
      "\x7d"]
  else []

end EnumWire.Field
