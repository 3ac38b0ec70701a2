import EnumWire.Generated.MessageSource
import EnumWire.Proofs.Printer.Lines

/-! # Fields print their source

Every fragment of a field prints whole lines, so fragments may stand behind each other and inside
blocks. -/
namespace EnumWire

open MessageSource

/-! ### Fragments of a field -/

namespace Field

variable (params : Params) (field : Field)

theorem printsLines_comment :
    (field.say params ["/* $message_name$.$capitalized_name$ = $number$ */"]).PrintsLines
      (Text.lines ["/* " ++ field.messageName ++ "." ++ CaseStyle.camel field.name ++ " = " ++
        Text.ofNat field.number.toNat ++ " */"]) := by
  refine Script.printsLines_print ?_
  unfold placeholders
  repeat rw [String.toList_ofList]
  simp only [List.append_assoc]
  rfl

theorem printsLines_members : (field.members params).PrintsLines field.member.text := by
  have hlines (comment line : Text) :
      Text.lines [comment, line] = Text.lines [comment] ++ Text.lines [line] :=
    Text.lines_append [_] [line]
  unfold members Member.text member
  rw [hlines]
  refine (printsLines_comment params field).append (Script.printsLines_print ?_)
  cases field.kind <;>
  · unfold placeholders
    repeat rw [String.toList_ofList]
    simp only [List.append_assoc]
    rfl

theorem printsLines_initialization :
    (field.initialization params).PrintsLines (field.initial params).text := by
  unfold initialization initial
  cases field.kind <;>
  · refine Script.printsLines_print ?_
    unfold placeholders
    repeat rw [String.toList_ofList]
    simp only [List.append_assoc]
    rfl

theorem printsLines_presence :
    (Message.presenceScript params field).PrintsLines (field.accessor params).text := by
  unfold Message.presenceScript Accessor.text accessor
  -- The line that ends with a placeholder expands with an empty rest behind it.
  rw [← List.append_nil (Comparison.text _)]
  unfold Comparison.text comparison
  refine Script.printsLines_print ?_
  repeat rw [String.toList_ofList]
  simp only [List.append_assoc]
  rfl

theorem printsLines_unlessEmpty {body : Script} {lines : List Text}
    (h : body.PrintsLines (Text.lines lines)) :
    (field.unlessEmpty params body).PrintsLines
      (MessageSource.unlessEmpty (Names.field field) lines) := by
  refine Script.PrintsLines.append (Script.printsLines_print ?_) h.nested
  unfold placeholders
  repeat rw [String.toList_ofList]
  simp only [List.append_assoc]
  rfl

theorem printsLines_serialization :
    (field.serialization params).PrintsLines (field.writing params).text := by
  unfold serialization writing
  cases field.kind with
  | singular =>
    refine Script.printsLines_print ?_
    unfold comparison Comparison.text Writing.writesTag placeholders
    repeat rw [String.toList_ofList]
    simp only [List.append_assoc]
    rfl
  | repeated =>
    refine (printsLines_unlessEmpty params field (Script.printsLines_print ?_)).append
      Script.printsLines_brace
    unfold Writing.writesTag placeholders
    repeat rw [String.toList_ofList]
    simp only [List.append_assoc]
    rfl
  | packed =>
    refine (printsLines_unlessEmpty params field (Script.printsLines_print ?_)).append
      Script.printsLines_brace
    unfold Writing.writesTag placeholders
    repeat rw [String.toList_ofList]
    simp only [List.append_assoc]
    rfl

theorem printsLines_dataSize :
    (field.dataSize params).PrintsLines (Text.lines (Sizing.dataSize (Names.field field))) := by
  unfold dataSize Sizing.dataSize
  -- As for presence, a line ends with a placeholder.
  rw [← List.append_nil (Names.field field)]
  refine Script.printsLines_print ?_
  unfold placeholders
  repeat rw [String.toList_ofList]
  rfl

/-- Where a repeated field is not empty, its elements are added up before anything else. -/
theorem printsLines_sized {templates texts : List Text}
    (h : templates.mapM (Template.expand (field.placeholders params)) = .ok texts) :
    (field.unlessEmpty params (field.dataSize params ++ field.say params templates)).PrintsLines
      (MessageSource.unlessEmpty (Names.field field)
        (Sizing.dataSize (Names.field field) ++ texts)) := by
  refine printsLines_unlessEmpty params field ?_
  rw [Text.lines_append]
  exact (printsLines_dataSize params field).append (Script.printsLines_print h)

theorem printsLines_size : (field.size params).PrintsLines (field.sizing params).text := by
  unfold size sizing
  cases field.kind with
  | singular =>
    refine Script.printsLines_print ?_
    unfold comparison Comparison.text placeholders
    repeat rw [String.toList_ofList]
    simp only [List.append_assoc]
    rfl
  | repeated =>
    refine (printsLines_sized params field ?_).append Script.printsLines_brace
    unfold placeholders
    repeat rw [String.toList_ofList]
    simp only [List.append_assoc]
    rfl
  | packed =>
    refine (printsLines_sized params field ?_).append (Script.printsLines_print ?_)
    all_goals
      unfold placeholders
      repeat rw [String.toList_ofList]
      simp only [List.append_assoc]
      rfl

theorem printsLines_merging : (field.merging params).PrintsLines field.mergingSource.text := by
  unfold merging mergingSource
  cases field.kind <;>
  · refine Script.printsLines_print ?_
    unfold placeholders
    repeat rw [String.toList_ofList]
    simp only [List.append_assoc]
    rfl

theorem printsLines_clear (replaces : Bool) :
    Script.PrintsLines (if replaces then field.say params ["self.$name$.clear();"] else [])
      (if replaces then Text.lines ["self." ++ Names.field field ++ ".clear();"] else []) := by
  cases replaces with
  | true =>
    refine Script.printsLines_print ?_
    unfold placeholders
    repeat rw [String.toList_ofList]
    simp only [List.append_assoc]
    rfl
  | false => exact Script.printsLines_nil

theorem printsLines_intake (arm : Arm) :
    (field.intake params arm.intake).PrintsLines
      (ArmSource.body ⟨arm, Names.field field, field.elementTag⟩) := by
  unfold intake ArmSource.body
  cases arm.intake with
  | value =>
    refine Script.printsLines_print ?_
    unfold placeholders
    repeat rw [String.toList_ofList]
    simp only [List.append_assoc]
    rfl
  | elements =>
    refine Script.printsLines_print ?_
    unfold placeholders
    repeat rw [String.toList_ofList]
    simp only [List.append_assoc]
    rfl
  | packedRun replaces =>
    dsimp only
    rw [List.append_assoc]
    refine .append (Script.printsLines_print ?_) ((printsLines_clear params field replaces).append
      (Script.printsLines_print ?_))
    · repeat rw [String.toList_ofList]
      rfl
    · unfold placeholders
      repeat rw [String.toList_ofList]
      simp only [List.append_assoc]
      rfl

theorem printsLines_armScript (arm : Arm) :
    (Message.armScript params field arm).PrintsLines
      (ArmSource.text ⟨arm, Names.field field, field.elementTag⟩) := by
  have hopen : Text.lines [Text.ofNat arm.tag.toNat ++ " => \x7b"] =
      Text.ofNat arm.tag.toNat ++ " => \x7b\n" := by
    simp [Text.lines]
  have hstart : Script.PrintsLines [.raw (Text.ofNat arm.tag.toNat ++ " => \x7b\n")]
      (Text.lines [Text.ofNat arm.tag.toNat ++ " => \x7b"]) := by
    rw [← hopen]
    exact Script.printsLines_raw (Printer.endsLine_lines _)
  exact (hstart.append (printsLines_intake params field arm).nested).append Script.printsLines_brace

theorem printsLines_fieldArms :
    (Message.fieldArms params field).PrintsLines (field.armSources.flatMap ArmSource.text) := by
  rw [armSources, List.flatMap_map]
  exact .flatMap fun arm _ => printsLines_armScript params field arm

/-! ### Fragments for the size cache -/

/-- Where only packed fields have a fragment, the others print nothing. -/
theorem printsLines_packed (fields : List Field) (text : Text → Text) {script : Field → Script}
    (h : ∀ field, (script field).PrintsLines (text (Names.field field))) :
    Script.PrintsLines (fields.flatMap fun field => if field.hasSizeCache then script field else [])
      (((fields.filter fun field => field.kind = .packed).map Names.field).flatMap text) := by
  induction fields with
  | nil => exact Script.printsLines_nil
  | cons field fields ih =>
    rw [List.flatMap_cons, hasSizeCache]
    by_cases hkind : field.kind = .packed
    · rw [if_pos (decide_eq_true hkind), List.filter_cons_of_pos (by simpa using hkind)]
      exact (h field).append ih
    · rw [if_neg (by simpa using hkind), List.filter_cons_of_neg (by simpa using hkind)]
      exact ih

theorem printsLines_cacheMember :
    (field.say params ["$name$: usize,"]).PrintsLines
      (Text.lines [Names.field field ++ ": usize,"]) := by
  refine Script.printsLines_print ?_
  unfold placeholders
  repeat rw [String.toList_ofList]
  rfl

theorem printsLines_cacheStart :
    (field.say params ["$name$: 0,"]).PrintsLines (Text.lines [Names.field field ++ ": 0,"]) := by
  refine Script.printsLines_print ?_
  unfold placeholders
  repeat rw [String.toList_ofList]
  rfl

theorem printsLines_cacheAccessor :
    (field.say params [
      "/* Encoded payload length of $name$, without tag and length prefix */",
      "pub fn $name$(&self) -> usize \x7b",
      "    self.$name$",
      "\x7d"]).PrintsLines (CacheAccessor.text ⟨Names.field field, Names.field field⟩) := by
  unfold CacheAccessor.text
  dsimp only
  -- As for presence, a line ends with a placeholder.
  rw [← List.append_nil ("    self.".toList ++ Names.field field)]
  refine Script.printsLines_print ?_
  unfold placeholders
  repeat rw [String.toList_ofList]
  simp only [List.append_assoc]
  rfl

end Field

end EnumWire
