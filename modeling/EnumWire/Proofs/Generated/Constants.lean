import EnumWire.Generated.ConstantValues
import EnumWire.Proofs.Printer.Lines

/-! # The text of an enumeration

Declarations stand between the lines that open and close an enumeration, one on each line, and one
level deeper where the style has a block around them. -/
namespace EnumWire.Constants

variable {params : Params} {enum : EnumType}

/-- How deep the declarations stand. -/
def depth : EnumStyle → Nat
  | .shell => 1
  | .flat => 0

def openingLines (params : Params) (enum : EnumType) : List Text :=
  ("/* enum " ++ Names.enumType enum ++ " */") ::
  match params.enumStyle with
  | .shell => [
      "#[derive(Debug, Clone, Copy, PartialEq, Eq)]",
      "pub struct " ++ Names.enumType enum ++ ";",
      "",
      "impl " ++ Names.enumType enum ++ " \x7b"]
  | .flat => []

def closingLines : EnumStyle → List Text
  | .shell => ["\x7d", ""]
  | .flat => [""]

/-- Lines between those that open and close an enumeration. -/
def enclosedText (params : Params) (enum : EnumType) (t : Text) : Text :=
  Text.lines (openingLines params enum) ++ Printer.indented (depth params.enumStyle) true t ++
    Text.lines (closingLines params.enumStyle)

theorem printsLines_title (enum : EnumType) :
    Script.PrintsLines
      [.print [("classname", Names.enumType enum)] (Text.lines ["/* enum $classname$ */"])]
      (Text.lines ["/* enum " ++ Names.enumType enum ++ " */"]) := by
  refine Script.printsLines_print ?_
  repeat rw [String.toList_ofList]
  simp only [List.append_assoc]
  rfl

theorem printsLines_shell (enum : EnumType) :
    Script.PrintsLines
      [.print [("classname", Names.enumType enum)] (Text.lines [
        "#[derive(Debug, Clone, Copy, PartialEq, Eq)]",
        "pub struct $classname$;",
        "",
        "impl $classname$ \x7b"])]
      (Text.lines [
        "#[derive(Debug, Clone, Copy, PartialEq, Eq)]",
        "pub struct " ++ Names.enumType enum ++ ";",
        "",
        "impl " ++ Names.enumType enum ++ " \x7b"]) := by
  refine Script.printsLines_print ?_
  repeat rw [String.toList_ofList]
  simp only [List.append_assoc]
  rfl

theorem printsLines_enclosed {body : Script} {t : Text} (h : body.PrintsLines t) :
    (enclosed params enum body).PrintsLines (enclosedText params enum t) := by
  have htitle := printsLines_title enum
  have hend : Script.PrintsLines [.raw "\n"] (Text.lines [""]) := Script.printsLines_raw rfl
  unfold enclosed enclosedText openingLines closingLines
  cases params.enumStyle with
  | flat =>
    rw [depth, Printer.indented_zero]
    exact (htitle.append h).append hend
  | shell =>
    have hblock := ((printsLines_shell enum).append h.nested).append Script.printsLines_brace
    have hlines := (htitle.append hblock).append hend
    simp only [Text.lines_cons, List.append_assoc, List.cons_append, Text.lines_nil,
      List.nil_append] at hlines ⊢
    exact hlines

theorem printsLines_canonicalScript (declaration : Declaration) :
    (canonicalScript declaration).PrintsLines (Text.lines [declaration.line]) := by
  unfold canonicalScript Declaration.line
  refine Script.printsLines_print ?_
  repeat rw [String.toList_ofList]
  simp only [List.append_assoc]
  rfl

theorem printsLines_aliasScript (declaration : Declaration) :
    (aliasScript declaration).PrintsLines (Text.lines [declaration.line]) := by
  unfold aliasScript Declaration.line
  refine Script.printsLines_print ?_
  repeat rw [String.toList_ofList]
  simp only [List.append_assoc]
  rfl

theorem printsLines_body (params : Params) (enum : EnumType) :
    (body params enum).PrintsLines
      (Text.lines ((declarations params enum).map Declaration.line)) := by
  rw [declarations, List.map_append, Text.lines_append, List.map_map, List.map_map, Text.lines_map,
    Text.lines_map]
  exact (Script.PrintsLines.flatMap fun value _ => printsLines_canonicalScript _).append
    (Script.PrintsLines.flatMap fun entry _ => printsLines_aliasScript _)

theorem printsLines_script (params : Params) (enum : EnumType) :
    (script params enum).PrintsLines (enclosedText params enum
      (Text.lines ((declarations params enum).map Declaration.line))) :=
  printsLines_enclosed (printsLines_body params enum)

end EnumWire.Constants
