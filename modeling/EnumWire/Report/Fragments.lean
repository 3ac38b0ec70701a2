import EnumWire.Generated.ConstantValues
import EnumWire.Report.Basic

/-! # Source from a report

What a report says of an enumeration is enough to declare its constants, and what it says of a field
to write the lines that depend on its encoding and on its default. -/
namespace EnumWire.Report

/-- The constants of a report, one on each line. -/
def EnumReport.body (report : EnumReport) : Script :=
  report.constants.flatMap fun declaration => [.raw (Text.lines [declaration.line])]

namespace FieldReport

/-- The name of the member that holds the field. -/
def member (report : FieldReport) : Text := Names.escape (CaseStyle.snake report.name)

/-- The type in which the values are kept. -/
def storage : FieldKind → Text
  | .singular => "i32"
  | .repeated => "Vec<i32>"
  | .packed => "Vec<i32>"

def comment (report : FieldReport) (messageName : Text) : Text :=
  "/* " ++ messageName ++ "." ++ CaseStyle.camel report.name ++ " = " ++
    Text.ofNat report.number.toNat ++ " */"

/-- The member of the message, with what it is declared as before it. -/
def members (report : FieldReport) (messageName type : Text) : Text :=
  Text.lines [report.comment messageName, "pub " ++ report.member ++ ": " ++ type ++ ","]

/-- The member of the size cache. -/
def cacheMember (report : FieldReport) : Text := Text.lines [report.member ++ ": usize,"]

/-- An arm of the dispatch on the tag. -/
def arm (report : FieldReport) (body : Text) : Text :=
  Text.lines [Text.ofNat report.tag.toNat ++ " => \x7b"] ++ Printer.indented 1 true body ++
    Text.lines ["\x7d"]

/-- The condition under which a singular field is present. -/
def comparison (report : FieldReport) : Text :=
  "self." ++ report.member ++ " != " ++ report.defaultRef

def presence (report : FieldReport) : Text :=
  Text.lines [
    "pub fn has_" ++ CaseStyle.snake report.name ++ "(&self) -> bool \x7b",
    "    " ++ report.comparison,
    "\x7d",
    ""]

def initialization (report : FieldReport) : Text :=
  Text.lines [
    match report.kind with
    | .singular => report.member ++ ": " ++ report.defaultRef ++ ","
    | _ => report.member ++ ": Vec::new(),"]

/-- Opens the lines that hold where a repeated field is not empty. -/
def unlessEmpty (report : FieldReport) (body : List Text) : Text :=
  Text.lines ["if !self." ++ report.member ++ ".is_empty() \x7b"] ++
    Printer.indented 1 true (Text.lines body)

def writesTag (report : FieldReport) : Text :=
  "output.write_raw_varint32(" ++ Text.ofNat report.tag.toNat ++ ");"

def serialization (report : FieldReport) : Text :=
  match report.kind with
  | .singular =>
    Text.lines [
      "if " ++ report.comparison ++ " \x7b",
      "    " ++ report.writesTag,
      "    output.write_int32_no_tag(self." ++ report.member ++ ");",
      "\x7d"]
  | .repeated =>
    report.unlessEmpty [
      "for &element in &self." ++ report.member ++ " \x7b",
      "    " ++ report.writesTag,
      "    output.write_int32_no_tag(element);",
      "\x7d"] ++
    Text.lines ["\x7d"]
  | .packed =>
    report.unlessEmpty [
      report.writesTag,
      "output.write_raw_varint32(size_cache." ++ report.member ++ " as u32);",
      "for &element in &self." ++ report.member ++ " \x7b",
      "    output.write_int32_no_tag(element);",
      "\x7d"] ++
    Text.lines ["\x7d"]

/-- Adds up the elements of a repeated field. -/
def dataSize (report : FieldReport) : List Text := [
  "let data_size: usize = self",
  "    ." ++ report.member,
  "    .iter()",
  "    .map(|&element| nano::compute_int32_size_no_tag(element))",
  "    .sum();",
  "size += data_size;"]

def size (report : FieldReport) : Text :=
  match report.kind with
  | .singular =>
    Text.lines [
      "if " ++ report.comparison ++ " \x7b",
      "    size += " ++ Text.ofNat report.tagSize ++
        " + nano::compute_int32_size_no_tag(self." ++ report.member ++ ");",
      "\x7d"]
  | .repeated =>
    report.unlessEmpty (report.dataSize ++ [
      "size += " ++ Text.ofNat report.tagSize ++ " * self." ++ report.member ++ ".len();"]) ++
    Text.lines ["\x7d"]
  | .packed =>
    report.unlessEmpty (report.dataSize ++ [
      "size += " ++ Text.ofNat report.tagSize ++ ";",
      "size += nano::compute_raw_varint32_size(data_size as u32);",
      "size_cache." ++ report.member ++ " = data_size;"]) ++
    Text.lines [
      "\x7d else \x7b",
      "    size_cache." ++ report.member ++ " = 0;",
      "\x7d"]

end FieldReport
end EnumWire.Report
