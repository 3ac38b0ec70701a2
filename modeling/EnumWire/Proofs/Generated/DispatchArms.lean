import EnumWire.Proofs.Codec.Dispatch
import EnumWire.Proofs.Generated.MessageSource
import EnumWire.Proofs.Text.Decimal
import Mathlib.Data.List.Nodup

/-! # The arms of the dispatch on the tag

Where the fields of a message have numbers of their own, no two arms of its reading loop have one
pattern, and the arms for the number of a field are those of its label. The patterns are read off the
lines of the printed loop. -/
namespace EnumWire

/-! ### The arms of a field -/

namespace Field

variable {field : Field} {source : MessageSource.ArmSource}

theorem tag_of_mem_armSources (h : source ∈ field.armSources) :
    source.arm.tag = Wire.Tag.make field.number source.arm.intake.wireType := by
  obtain ⟨arm, harm, rfl⟩ := List.mem_map.1 h
  exact FieldKind.tag_of_mem_arms harm

theorem fieldNumber_of_mem_armSources (hfits : Wire.Tag.Fits field.number)
    (h : source ∈ field.armSources) : source.arm.tag.fieldNumber = field.number := by
  rw [tag_of_mem_armSources h, Wire.Tag.fieldNumber_make hfits]

theorem tag_ne_zero_of_mem_armSources (hfits : Wire.Tag.Fits field.number)
    (h : source ∈ field.armSources) : source.arm.tag ≠ 0 := by
  intro hzero
  refine Wire.Tag.fieldNumber_make_ne_zero hfits source.arm.intake.wireType ?_
  rw [← tag_of_mem_armSources h, hzero]
  rfl

/-- The two arms of a repeated field differ in the wire type of their tags. -/
theorem nodup_tags_armSources (hfits : Wire.Tag.Fits field.number) :
    (field.armSources.map fun source => source.arm.tag).Nodup := by
  have hne : Wire.Tag.make field.number .varint ≠ Wire.Tag.make field.number .lengthDelimited := by
    intro heq
    cases (Wire.Tag.make_inj hfits.2 hfits.2 heq).2
  unfold armSources arms
  cases field.kind with
  | singular => exact List.nodup_singleton _
  | «repeated» => exact List.nodup_cons.2 ⟨mt List.mem_singleton.1 hne, List.nodup_singleton _⟩
  | packed => exact List.nodup_cons.2 ⟨mt List.mem_singleton.1 hne.symm, List.nodup_singleton _⟩

end Field

namespace MessageSource

open Printer

/-! ### Arms and their patterns -/

def ArmSource.pattern (source : ArmSource) : Text := Text.ofNat source.arm.tag.toNat

/-- The pattern of the arm that begins with a line: what is before the arrow, at the depth of the
arms. -/
def pattern? (line : Text) : Option Text :=
  (List.isPrefixOf? (indentation 3) line).bind fun arm =>
    (Text.splitFirst ' ' arm).bind fun (pattern, rest) =>
      if pattern ≠ [] ∧ ("=> " : Text) <+: rest then some pattern else none

/-- The patterns of the arms of a printed loop, from the first to the last. -/
def patterns (t : Text) : List Text := (Text.split '\n' t).filterMap pattern?

/-- The arms behind tags with a field number. -/
def armsOf (source : MessageSource) (number : UInt32) : List ArmSource :=
  source.arms.filter fun arm => arm.arm.tag.fieldNumber = number

/-- Every tag leads to one arm at most, and the tags of a field lead to the arms of its label. These
are the arms that a content of the fields is read by. -/
structure Dispatches (source : MessageSource) (fields : List Field) : Prop where
  patterns_eq : patterns source.parseText =
    ("0" : Text) :: (source.arms.map ArmSource.pattern ++ [("_" : Text)])
  nodup : (patterns source.parseText).Nodup
  owner : ∀ arm ∈ source.arms, ∃ field ∈ fields, arm.arm.tag.fieldNumber = field.number
  of_optional : ∀ field ∈ fields, field.label = .optional →
    source.armsOf field.number =
      [⟨⟨Wire.Tag.make field.number .varint, .value⟩, Names.field field,
        Wire.Tag.make field.number .varint⟩]
  /-- The run of elements goes on as long as its own tag follows. -/
  of_repeated : ∀ field ∈ fields, field.label = .repeated →
    (source.armsOf field.number).Perm
      [⟨⟨Wire.Tag.make field.number .varint, .elements⟩, Names.field field,
          Wire.Tag.make field.number .varint⟩,
        ⟨⟨Wire.Tag.make field.number .lengthDelimited, .packedRun field.packed⟩,
          Names.field field, Wire.Tag.make field.number .varint⟩]
  read_by : source.arms.map ArmSource.arm =
    (fields.map Codec.Slot.ofField).flatMap Codec.Slot.arms

/-! ### Reading patterns back -/

variable {t u line rest pattern : Text} {lines : List Text}

theorem pattern?_nil : pattern? [] = none := rfl

theorem pattern?_arm (hne : pattern ≠ []) (hblank : ' ' ∉ pattern) (rest : Text) :
    pattern? (indentation 3 ++ (pattern ++ ' ' :: ("=> " ++ rest))) = some pattern := by
  rw [pattern?, Text.isPrefixOf?_append, Option.bind_some, Text.splitFirst_append_cons hblank,
    Option.bind_some]
  exact if_pos ⟨hne, List.prefix_append _ rest⟩

/-- A line deeper than the arms begins none. -/
theorem pattern?_deeper (line : Text) : pattern? (indentedLine 4 line) = none := by
  unfold indentedLine
  split
  · rfl
  · have hblanks : indentation 4 ++ line = indentation 3 ++ (' ' :: ("   " ++ line)) := rfl
    rw [hblanks, pattern?, Text.isPrefixOf?_append, Option.bind_some, Text.splitFirst, if_pos rfl]
    rfl

theorem patterns_append (ht : endsLine true t = true) (u : Text) :
    patterns (t ++ u) = patterns t ++ patterns u := by
  rcases List.eq_nil_or_concat t with rfl | ⟨before, c, rfl⟩
  · rfl
  · -- The break at the end of a text leaves an empty piece, which begins no arm.
    rw [List.concat_eq_append, endsLine_append] at ht
    obtain rfl : c = '\n' := of_decide_eq_true ht
    rw [List.concat_eq_append, List.append_assoc, List.singleton_append, patterns, patterns,
      patterns, Text.split_append_sep, Text.split_append_sep, List.filterMap_append,
      List.filterMap_append]
    simp [Text.split, pattern?_nil]

theorem patterns_lines (h : ∀ line ∈ lines, '\n' ∉ line) :
    patterns (Text.lines lines) = lines.filterMap pattern? := by
  have hsplit := Text.split_lines h []
  rw [List.append_nil] at hsplit
  rw [patterns, hsplit, List.filterMap_append]
  simp [Text.split, pattern?_nil]

theorem patterns_deeper (t : Text) : patterns (indented 4 true t) = [] := by
  rw [patterns, split_indented, List.filterMap_map, List.filterMap_eq_nil_iff]
  exact fun line _ => pattern?_deeper line

theorem patterns_indented_append (ht : endsLine true t = true) (u : Text) :
    patterns (indented 3 true (t ++ u)) =
      patterns (indented 3 true t) ++ patterns (indented 3 true u) := by
  rw [indented_append, ht, patterns_append (by rw [endsLine_indented, ht])]

/-- The first line of an arm, with what it begins with behind the arrow. -/
theorem patterns_indented_arm (hne : pattern ≠ []) (hblank : ' ' ∉ pattern)
    (hline : '\n' ∉ pattern ++ ' ' :: ("=> " ++ rest)) :
    patterns (indented 3 true (Text.lines [pattern ++ ' ' :: ("=> " ++ rest)])) = [pattern] := by
  have hnotEmpty : pattern ++ ' ' :: ("=> " ++ rest) ≠ [] := List.append_ne_nil_of_left_ne_nil hne _
  have hindented := newline_not_mem_indentedLine 3 hline
  rw [indented_lines 3 (List.forall_mem_singleton.2 hline), List.map_singleton,
    patterns_lines (List.forall_mem_singleton.2 hindented), indentedLine, if_neg hnotEmpty,
    List.filterMap_cons_some (pattern?_arm hne hblank rest), List.filterMap_nil]

theorem endsLine_body (source : ArmSource) : endsLine true source.body = true := by
  unfold ArmSource.body
  split
  · exact endsLine_lines _
  · exact endsLine_lines _
  · rename_i replaces _
    cases replaces
    · rw [if_neg Bool.false_ne_true, List.nil_append, endsLine_append, endsLine_lines, endsLine_lines]
    · rw [if_pos rfl, endsLine_append, endsLine_append, endsLine_lines, endsLine_lines,
        endsLine_lines]

theorem endsLine_arm (source : ArmSource) : endsLine true source.text = true := by
  rw [ArmSource.text, endsLine_append, endsLine_append, endsLine_lines, endsLine_indented,
    endsLine_body, endsLine_lines]

theorem patterns_arm (source : ArmSource) :
    patterns (indented 3 true source.text) = [source.pattern] := by
  have harrow : (" => \x7b" : Text) = ' ' :: ("=> " ++ "\x7b") := rfl
  have hblank : ' ' ∉ source.pattern := Text.not_mem_ofNat rfl _
  have hnewline : '\n' ∉ source.pattern ++ ' ' :: ("=> " ++ "\x7b") := by
    rw [List.mem_append, not_or]
    exact ⟨Text.not_mem_ofNat rfl _, by decide⟩
  have hbody : endsLine true (indented 1 true source.body) = true := by
    rw [endsLine_indented, endsLine_body]
  have hclose : patterns (indented 3 true (Text.lines ["\x7d"])) = [] := rfl
  rw [ArmSource.text, harrow, List.append_assoc, patterns_indented_append (endsLine_lines _),
    patterns_indented_append hbody, indented_indented, patterns_deeper, hclose,
    List.append_nil, List.append_nil]
  exact patterns_indented_arm (Text.digits_ne_nil _ _) hblank hnewline

theorem endsLine_arms (arms : List ArmSource) :
    endsLine true (arms.flatMap ArmSource.text) = true := by
  induction arms with
  | nil => rfl
  | cons source arms ih => rw [List.flatMap_cons, endsLine_append, endsLine_arm, ih]

theorem patterns_arms (arms : List ArmSource) :
    patterns (indented 3 true (arms.flatMap ArmSource.text)) = arms.map ArmSource.pattern := by
  induction arms with
  | nil => rfl
  | cons source arms ih =>
    rw [List.flatMap_cons, patterns_indented_append (endsLine_arm source), patterns_arm, ih]
    rfl

/-- The loop has an arm for the end of the input, those of the fields, and one for other tags. -/
theorem patterns_parseText (source : MessageSource) :
    patterns source.parseText =
      ("0" : Text) :: (source.arms.map ArmSource.pattern ++ [("_" : Text)]) := by
  have hopen : patterns (Text.lines Message.dispatchLines) = [("0" : Text)] := by
    unfold Message.dispatchLines
    repeat rw [String.toList_ofList]
    decide +kernel
  have hskip : patterns (indented 3 true (Text.lines ["_ => input.skip_field(tag)?,"])) =
      [("_" : Text)] := by
    decide +kernel
  have hclose : patterns (Text.lines ["        \x7d", "    \x7d", "\x7d", ""]) = [] := by
    decide +kernel
  have hinner : endsLine true (indented 3 true (source.arms.flatMap ArmSource.text ++
      Text.lines ["_ => input.skip_field(tag)?,"])) = true := by
    rw [endsLine_indented, endsLine_append, endsLine_arms, endsLine_lines]
  rw [parseText, List.append_assoc, patterns_append (endsLine_lines _), patterns_append hinner,
    patterns_indented_append (endsLine_arms _), patterns_arms, hopen, hskip, hclose,
    List.append_nil, List.singleton_append]

end MessageSource

/-! ### The arms of a message -/

namespace Message

open MessageSource

variable {fields : List Field} {field : Field} {source : ArmSource}

/-- The numbers of the fields tell the tags of their arms apart, and none of them is the end. -/
theorem nodup_tags (hfits : ∀ field ∈ fields, Wire.Tag.Fits field.number)
    (hnumbers : (fields.map Field.number).Nodup) :
    (0 :: (fields.flatMap Field.armSources).map fun source => source.arm.tag).Nodup := by
  refine List.nodup_cons.2 ⟨fun hzero => ?_, ?_⟩
  · obtain ⟨source, hsource, htag⟩ := List.mem_map.1 hzero
    obtain ⟨field, hfield, hmem⟩ := List.mem_flatMap.1 hsource
    exact Field.tag_ne_zero_of_mem_armSources (hfits field hfield) hmem htag
  · rw [List.map_flatMap, List.nodup_flatMap]
    refine ⟨fun field hfield => Field.nodup_tags_armSources (hfits field hfield), ?_⟩
    refine (List.pairwise_map.1 hnumbers).imp_of_mem fun {field other} hfield hother hne => ?_
    -- Fields with a common tag would have a common number.
    refine List.disjoint_left.2 fun tag htag hagain => hne ?_
    obtain ⟨source, hsource, rfl⟩ := List.mem_map.1 htag
    obtain ⟨again, hmem, heq⟩ := List.mem_map.1 hagain
    rw [← Field.fieldNumber_of_mem_armSources (hfits field hfield) hsource, ← heq,
      Field.fieldNumber_of_mem_armSources (hfits other hother) hmem]

/-- Different tags have different patterns, and the pattern of all other tags is no number. -/
theorem nodup_patterns {arms : List ArmSource}
    (h : (0 :: arms.map fun source => source.arm.tag).Nodup) :
    (("0" : Text) :: (arms.map ArmSource.pattern ++ [("_" : Text)])).Nodup := by
  have hzero : ("0" : Text) = Text.ofNat (0 : Wire.Tag).toNat := by decide +kernel
  have hpatterns : ("0" : Text) :: arms.map ArmSource.pattern =
      (0 :: arms.map fun source => source.arm.tag).map fun tag => Text.ofNat tag.toNat := by
    rw [List.map_cons, List.map_map, hzero]
    rfl
  rw [← List.cons_append, hpatterns]
  refine List.nodup_append.2 ⟨h.map fun v w heq => UInt32.toNat_inj.1 (Text.ofNat_inj.1 heq),
    List.nodup_singleton _, ?_⟩
  rintro pattern hpattern _ hother rfl
  obtain ⟨tag, -, rfl⟩ := List.mem_map.1 hpattern
  refine Text.not_mem_ofNat (c := '_') rfl tag.toNat ?_
  rw [List.mem_singleton.1 hother]
  exact List.mem_singleton_self _

theorem filter_armSources_of_ne (hfits : Wire.Tag.Fits field.number) {number : UInt32}
    (hne : field.number ≠ number) :
    (field.armSources.filter fun source => source.arm.tag.fieldNumber = number) = [] := by
  rw [List.filter_eq_nil_iff]
  intro source hsource hnumber
  rw [decide_eq_true_eq, Field.fieldNumber_of_mem_armSources hfits hsource] at hnumber
  exact hne hnumber

theorem filter_armSources_self (hfits : Wire.Tag.Fits field.number) :
    (field.armSources.filter fun source => source.arm.tag.fieldNumber = field.number) =
      field.armSources := by
  rw [List.filter_eq_self]
  intro source hsource
  rw [decide_eq_true_eq, Field.fieldNumber_of_mem_armSources hfits hsource]

theorem filter_flatMap_armSources_of_notMem {number : UInt32}
    (hfits : ∀ field ∈ fields, Wire.Tag.Fits field.number) (h : number ∉ fields.map Field.number) :
    ((fields.flatMap Field.armSources).filter fun source =>
      source.arm.tag.fieldNumber = number) = [] := by
  rw [List.filter_flatMap, List.flatMap_eq_nil_iff]
  intro field hfield
  exact filter_armSources_of_ne (hfits field hfield)
    fun heq => h (List.mem_map.2 ⟨field, hfield, heq⟩)

/-- The arms for the number of a field are its own. -/
theorem filter_flatMap_armSources (hfits : ∀ field ∈ fields, Wire.Tag.Fits field.number)
    (hnumbers : (fields.map Field.number).Nodup) (hfield : field ∈ fields) :
    ((fields.flatMap Field.armSources).filter fun source =>
      source.arm.tag.fieldNumber = field.number) = field.armSources := by
  induction fields with
  | nil => cases hfield
  | cons first fields ih =>
    rw [List.forall_mem_cons] at hfits
    rw [List.map_cons, List.nodup_cons] at hnumbers
    rw [List.flatMap_cons, List.filter_append]
    rcases List.mem_cons.1 hfield with rfl | hfield
    · rw [filter_armSources_self hfits.1, filter_flatMap_armSources_of_notMem hfits.2 hnumbers.1,
        List.append_nil]
    · have hne : first.number ≠ field.number :=
        fun heq => hnumbers.1 (List.mem_map.2 ⟨field, hfield, heq.symm⟩)
      rw [filter_armSources_of_ne hfits.1 hne, ih hfits.2 hnumbers.2 hfield, List.nil_append]

theorem map_arm_flatMap_armSources (fields : List Field) :
    (fields.flatMap Field.armSources).map ArmSource.arm =
      (fields.map Codec.Slot.ofField).flatMap Codec.Slot.arms := by
  have hfield (field : Field) : field.armSources.map ArmSource.arm = field.arms :=
    List.map_map.trans (List.map_id _)
  rw [List.map_flatMap, List.flatMap_map]
  simp only [hfield, Codec.Slot.arms_ofField]

theorem armSources_of_optional (h : field.label = .optional) :
    field.armSources =
      [⟨⟨Wire.Tag.make field.number .varint, .value⟩, Names.field field,
        Wire.Tag.make field.number .varint⟩] := by
  unfold Field.armSources Field.arms Field.kind
  rw [h]
  rfl

/-- The packed flag decides which arm comes first, and whether a run replaces what came before. -/
theorem armSources_perm_of_repeated (h : field.label = .repeated) :
    field.armSources.Perm
      [⟨⟨Wire.Tag.make field.number .varint, .elements⟩, Names.field field,
          Wire.Tag.make field.number .varint⟩,
        ⟨⟨Wire.Tag.make field.number .lengthDelimited, .packedRun field.packed⟩,
          Names.field field, Wire.Tag.make field.number .varint⟩] := by
  unfold Field.armSources Field.arms Field.kind
  rw [h]
  cases field.packed with
  | false => exact .refl _
  | true => exact .swap _ _ _

/-- In the printed reading loop of a message whose fields have numbers of their own, no pattern
occurs twice, and each field has the arms of its label under its own tags. -/
theorem parseScript_dispatches (params : Params) (message : Message)
    (hfits : ∀ field ∈ message.fields, Wire.Tag.Fits field.number)
    (hnumbers : (message.fields.map Field.number).Nodup) :
    (message.parseScript params).PrintsLines (message.source params).parseText ∧
      (message.source params).Dispatches message.fields := by
  have harms : ∀ field ∈ message.fields,
      (message.source params).armsOf field.number = field.armSources :=
    fun field hfield => filter_flatMap_armSources hfits hnumbers hfield
  refine ⟨message.printsLines_parseScript params, patterns_parseText _, ?_, ?_, ?_, ?_,
    map_arm_flatMap_armSources message.fields⟩
  · rw [patterns_parseText]
    exact nodup_patterns (nodup_tags hfits hnumbers)
  · intro source hsource
    obtain ⟨field, hfield, hmem⟩ := List.mem_flatMap.1 hsource
    exact ⟨field, hfield, Field.fieldNumber_of_mem_armSources (hfits field hfield) hmem⟩
  · intro field hfield hlabel
    rw [harms field hfield, armSources_of_optional hlabel]
  · intro field hfield hlabel
    rw [harms field hfield]
    exact armSources_perm_of_repeated hlabel

/-- A single value that is declared packed, elements, and a packed run with the greatest number. -/
def threeFields : Message where
  name := "Order"
  fields :=
    let initial : EnumValue := ⟨"OPEN", 0, 0, "Status"⟩
    [⟨"status", 1, .optional, true, "Status", initial, "Order"⟩,
      ⟨"earlier", 2, .repeated, false, "Status", initial, "Order"⟩,
      ⟨"allowed", 536870911, .repeated, true, "Status", initial, "Order"⟩]

theorem parseScript_dispatches_threeFields :
    ((∀ field ∈ threeFields.fields, Wire.Tag.Fits field.number) ∧
      (threeFields.fields.map Field.number).Nodup) ∧
    ((threeFields.parseScript {}).PrintsLines (threeFields.source {}).parseText ∧
      (threeFields.source {}).Dispatches threeFields.fields) ∧
    patterns (threeFields.source {}).parseText =
      (["0", "8", "16", "18", "4294967290", "4294967288", "_"] : List String).map String.toList := by
  have hfits : ∀ field ∈ threeFields.fields, Wire.Tag.Fits field.number := by decide
  have hnumbers : (threeFields.fields.map Field.number).Nodup := by decide
  have h := parseScript_dispatches {} threeFields hfits hnumbers
  exact ⟨⟨hfits, hnumbers⟩, h, h.2.patterns_eq.trans (by decide +kernel)⟩

end Message
end EnumWire
