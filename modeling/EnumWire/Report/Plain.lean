import EnumWire.Report.Basic

/-! # Reports as plain text

One line per enumeration, alias, constant, message and field, indented by what it belongs to, and a
blank line after each package. -/
namespace EnumWire.Report

def kindTitle : FieldKind → Text
  | .singular => "Singular"
  | .repeated => "Repeated"
  | .packed => "Packed"

def aliasLine (entry : AliasReport) : Text :=
  "    alias: " ++ entry.name ++ " -> " ++ entry.canonical

def constantLine (constant : Constants.Declaration) : Text :=
  "    const " ++ constant.name ++ " = " ++ constant.value

def enumLines (enum : EnumReport) : List Text :=
  ["  enum " ++ enum.name,
   "    canonical: " ++ List.intercalate ", " enum.canonicalValues] ++
  enum.aliases.map aliasLine ++ enum.constants.map constantLine

def fieldLine (field : FieldReport) : Text :=
  "    " ++ field.name ++ " = " ++ Text.ofNat field.number.toNat ++
    " (" ++ kindTitle field.kind ++ " " ++ field.enumName ++
    ") tag=" ++ Text.ofNat field.tag.toNat ++ " tag_size=" ++ Text.ofNat field.tagSize ++
    " default=" ++ field.defaultName ++ " (" ++ field.defaultRef ++ ")"

def messageLines (message : MessageReport) : List Text :=
  ("  message " ++ message.name) :: message.fields.map fieldLine

def PackageReport.plain (report : PackageReport) : Text :=
  Text.lines (
    ("[~] Package '" ++ report.package ++ "' (" ++ report.enumStyle.title ++ " constants)") ::
    report.enums.flatMap enumLines ++ report.messages.flatMap messageLines ++ [[]])

end EnumWire.Report
