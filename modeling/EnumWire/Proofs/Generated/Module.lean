import EnumWire.Generated.Module
import EnumWire.Generated.Scopes
import EnumWire.Proofs.Generated.Constants
import EnumWire.Proofs.Generated.MessageSource

/-! # The text of a module

Below the lines that open it, a module has the scopes of its constants and then its messages, each
with a text of its own. -/
namespace EnumWire.Module

variable (params : Params) (pool : Pool)

def headerLines (pool : Pool) : List Text := [
  "// Generated by nano-gen from package `" ++ pool.package ++ "`. Do not edit.",
  "#![allow(dead_code, non_upper_case_globals, unused_mut, clippy::identity_op)]",
  ""]

/-- Without messages, nothing is said of the runtime. -/
def sourceText : Text :=
  Text.lines (headerLines pool) ++
  (if emitsMessages params pool then Text.lines ["use " ++ params.runtimeCrate ++ " as nano;", ""]
  else []) ++
  (pool.scopes params).flatMap (Scope.text params) ++
  (if emitsMessages params pool then pool.messages.flatMap fun message => (message.source params).text
  else [])

theorem printsLines_header : (header params pool).PrintsLines (Text.lines (headerLines pool)) := by
  unfold headerLines
  refine Script.printsLines_print ?_
  unfold placeholders
  repeat rw [String.toList_ofList]
  simp only [List.append_assoc]
  rfl

theorem printsLines_runtimeUse :
    (runtimeUse params pool).PrintsLines
      (Text.lines ["use " ++ params.runtimeCrate ++ " as nano;", ""]) := by
  refine Script.printsLines_print ?_
  unfold placeholders
  repeat rw [String.toList_ofList]
  simp only [List.append_assoc]
  rfl

/-- The enumerations print the scopes, whichever of them share one. -/
theorem flatMap_text_scopes :
    (pool.scopes params).flatMap (Scope.text params) =
      pool.enums.flatMap fun enum => Constants.enclosedText params enum
        (Text.lines ((Constants.declarations params enum).map Constants.Declaration.line)) := by
  unfold Pool.scopes Constants.enclosedText Constants.openingLines Constants.closingLines
  cases params.enumStyle with
  | shell =>
    simp only [List.flatMap_map]
    refine List.flatMap_congr fun enum _ => ?_
    simp only [Scope.text, Scope.declarations, List.flatMap_singleton, Constants.depth]
  | flat =>
    simp only [List.flatMap_singleton, Scope.text, Constants.depth, Printer.indented_zero]

theorem printsLines_script : (script params pool).PrintsLines (sourceText params pool) := by
  have henums : Script.PrintsLines (pool.enums.flatMap (Constants.script params))
      ((pool.scopes params).flatMap (Scope.text params)) := by
    rw [flatMap_text_scopes]
    exact .flatMap fun enum _ => Constants.printsLines_script params enum
  have hmessages : Script.PrintsLines (pool.messages.flatMap (Message.script params))
      (pool.messages.flatMap fun message => (message.source params).text) :=
    .flatMap fun message _ => message.printsLines_script params
  have hheader := printsLines_header params pool
  unfold script sourceText
  by_cases hemits : emitsMessages params pool = true
  · simp only [if_pos hemits]
    exact ((hheader.append (printsLines_runtimeUse params pool)).append henums).append hmessages
  · simp only [if_neg hemits]
    exact ((hheader.append Script.printsLines_nil).append henums).append Script.printsLines_nil

theorem text_eq : text params pool = .ok (sourceText params pool) :=
  (printsLines_script params pool).text_eq

end EnumWire.Module
