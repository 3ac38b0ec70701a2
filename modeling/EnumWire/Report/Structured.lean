import EnumWire.Data
import EnumWire.Report.Basic

/-! # Reports as structured data

Field names and their order are those of the report. -/
namespace EnumWire.Report

def kindName : FieldKind → Text
  | .singular => "singular"
  | .repeated => "repeated"
  | .packed => "packed"

def EnumReport.data (enum : EnumReport) : Data :=
  .record [
    ("name", .text enum.name),
    ("canonical_values", .list (enum.canonicalValues.map .text)),
    ("aliases", .list (enum.aliases.map fun entry =>
      .record [("name", .text entry.name), ("canonical", .text entry.canonical)])),
    ("constants", .list (enum.constants.map fun constant =>
      .record [("name", .text constant.name), ("value", .text constant.value)]))]

def FieldReport.data (field : FieldReport) : Data :=
  .record [
    ("name", .text field.name),
    ("number", .number field.number.toNat),
    ("kind", .text (kindName field.kind)),
    ("enum_name", .text field.enumName),
    ("tag", .number field.tag.toNat),
    ("tag_size", .number field.tagSize),
    ("default", .text field.defaultName),
    ("default_ref", .text field.defaultRef)]

def MessageReport.data (message : MessageReport) : Data :=
  .record [
    ("name", .text message.name),
    ("fields", .list (message.fields.map FieldReport.data))]

def PackageReport.data (report : PackageReport) : Data :=
  .record [
    ("package", .text report.package),
    ("enum_style", .text (report.enumStyle.name)),
    ("enums", .list (report.enums.map EnumReport.data)),
    ("messages", .list (report.messages.map MessageReport.data))]

end EnumWire.Report
