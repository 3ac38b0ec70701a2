import EnumWire.Generated.Field
import EnumWire.Proofs.Codec.OtherEncoding
import EnumWire.Proofs.Printer.Lines

/-! # Fields declared the other way

A repeated field may be declared packed or not, and either declaration reads what writers of the
other one write. The arms change places with their tags and their source; only a packed field drops
what it held before a run. -/
namespace EnumWire.Field

open EnumWire.Wire EnumWire.Codec

variable {field : Field}

/-- The field declared the other way: packed where it is not, and not where it is. -/
def flipped (field : Field) : Field := { field with packed := !field.packed }

theorem flipped_flipped (field : Field) : field.flipped.flipped = field := by
  rw [flipped, flipped, Bool.not_not]

theorem kind_of_unpacked (hlabel : field.label = .repeated) (hpacked : field.packed = false) :
    field.kind = .repeated := by
  simp [kind, hlabel, hpacked]

theorem kind_flipped_of_unpacked (hlabel : field.label = .repeated)
    (hpacked : field.packed = false) : field.flipped.kind = .packed := by
  simp [kind, flipped, hlabel, hpacked]

/-! ### Lines without the tag -/

/-- The placeholders that do not depend on the declared encoding: all but that of the tag. -/
def sharedNames : List Text :=
  ["name", "has_name", "capitalized_name", "number", "type", "default", "unpacked_tag", "tag_size",
    "message_name"]

theorem lookup_placeholders_flipped (params : Params) (field : Field) :
    ∀ key ∈ sharedNames, ∃ text, (field.placeholders params).lookup key = some text ∧
      (field.flipped.placeholders params).lookup key = some text := by
  intro key hkey
  simp only [sharedNames, List.mem_cons, List.not_mem_nil, or_false] at hkey
  rcases hkey with rfl | rfl | rfl | rfl | rfl | rfl | rfl | rfl | rfl <;> exact ⟨_, rfl, rfl⟩

theorem say_flipped (params : Params) (field : Field) {ls : List Text}
    (h : Template.isFilledBy sharedNames (Text.split '$' (Text.lines ls)) = true) :
    (field.say params ls).PrintsLike (field.flipped.say params ls) := by
  obtain ⟨t, ht, hother⟩ :=
    Template.expand_of_isFilledBy (lookup_placeholders_flipped params field) h
  exact ⟨t, Script.prints_print ht, Script.prints_print hother⟩

/-! ### The lines of a packed run -/

/-- The lines that open a packed run; they name no field. -/
def runHead : List Text := [
  "let length = input.read_raw_varint32()? as usize;",
  "let limit = input.push_limit(length)?;",
  "let array_length = nano::packed_repeated_field_array_length(input)?;"]

theorem prints_runHead (params : Params) (field : Field) :
    (field.say params runHead).Prints (Text.lines runHead) :=
  Script.prints_print <| Template.expand_of_split <| by
    unfold runHead
    repeat rw [String.toList_ofList]
    decide +kernel

/-- The line with which a packed field drops what it held. -/
def clearLine (field : Field) : Text := "self." ++ Names.field field ++ ".clear();\n"

theorem prints_clearLine (params : Params) (field : Field) :
    (field.say params ["self.$name$.clear();"]).Prints field.clearLine :=
  Script.prints_print rfl

theorem runTail_flipped (params : Params) (field : Field) :
    (field.say params [
      "self.$name$.reserve_exact(array_length);",
      "for _ in 0..array_length \x7b",
      "    self.$name$.push(input.read_int32()?);",
      "\x7d",
      "input.pop_limit(limit);"]).PrintsLike
    (field.flipped.say params [
      "self.$name$.reserve_exact(array_length);",
      "for _ in 0..array_length \x7b",
      "    self.$name$.push(input.read_int32()?);",
      "\x7d",
      "input.pop_limit(limit);"]) :=
  say_flipped params field <| by
    unfold sharedNames
    repeat rw [String.toList_ofList]
    decide +kernel

/-! ### Both declarations -/

/-- What the unpacked and the packed declaration of one field have in common, and that each of them
reads into an empty list what a writer of the other one has written. -/
structure Interchange (params : Params) (unpacked packed : Field) : Prop where
  tag_unpacked : packed.alternateArm?.map Arm.tag = some unpacked.tag
  tag_packed : unpacked.alternateArm?.map Arm.tag = some packed.tag
  members : (unpacked.members params).PrintsLike (packed.members params)
  initialization : (unpacked.initialization params).PrintsLike (packed.initialization params)
  merging : (unpacked.merging params).PrintsLike (packed.merging params)
  parsing_unpacked : (unpacked.parsing params).PrintsLike (packed.alternateParsing params)
  /-- Only the packed declaration drops what it held, in a line of its own. -/
  parsing_packed : ∃ head tail, Printer.endsLine true head = true ∧
    (packed.parsing params).Prints (head ++ (packed.clearLine ++ tail)) ∧
    (unpacked.alternateParsing params).Prints (head ++ tail)
  reads_packed (before after : Content) (values : List Int32) :
    (before ++ Slot.ofField unpacked :: after).WellNumbered →
    Slot.elementsSize values < 2 ^ 32 →
    let bytes := Content.encode [.packed packed.number values]
    Content.readInto (before ++ Slot.ofField unpacked :: after) (Input.ofBytes bytes.toArray) =
      (.ok (before ++ .repeated unpacked.number values :: after),
        (Input.ofBytes bytes.toArray).advance bytes.length)
  reads_unpacked (before after : Content) (values : List Int32) :
    (before ++ Slot.ofField packed :: after).WellNumbered →
    let bytes := Content.encode [.repeated unpacked.number values]
    Content.readInto (before ++ Slot.ofField packed :: after) (Input.ofBytes bytes.toArray) =
      (.ok (before ++ .packed packed.number values :: after),
        (Input.ofBytes bytes.toArray).advance bytes.length)

theorem interchange_of_unpacked (params : Params) (field : Field)
    (hlabel : field.label = .repeated) (hpacked : field.packed = false) :
    Interchange params field field.flipped := by
  have hkind := kind_of_unpacked hlabel hpacked
  have hother := kind_flipped_of_unpacked hlabel hpacked
  constructor
  case tag_unpacked =>
    rw [alternateArm?, hother, tag, wireType, hkind]
    rfl
  case tag_packed =>
    rw [alternateArm?, hkind, tag, wireType, hother]
    rfl
  case members =>
    rw [Field.members, Field.members, hkind, hother]
    refine (say_flipped params field ?_).append (say_flipped params field ?_)
    all_goals
      unfold sharedNames
      repeat rw [String.toList_ofList]
      decide +kernel
  case initialization =>
    rw [Field.initialization, Field.initialization, hkind, hother]
    refine say_flipped params field ?_
    unfold sharedNames
    repeat rw [String.toList_ofList]
    decide +kernel
  case merging =>
    rw [Field.merging, Field.merging, hkind, hother]
    refine say_flipped params field ?_
    unfold sharedNames
    repeat rw [String.toList_ofList]
    decide +kernel
  case parsing_unpacked =>
    rw [parsing, declaredArm, hkind, alternateParsing, alternateArm?, hother]
    refine say_flipped params field ?_
    unfold sharedNames
    repeat rw [String.toList_ofList]
    decide +kernel
  case parsing_packed =>
    obtain ⟨tail, htail, hflipped⟩ := runTail_flipped params field
    refine ⟨Text.lines runHead, tail, Printer.endsLine_lines runHead, ?_, ?_⟩
    · rw [parsing, declaredArm, hother, ← List.append_assoc]
      exact ((prints_runHead params _).append (prints_clearLine params _)).append hflipped
    · rw [alternateParsing, alternateArm?, hkind]
      exact (prints_runHead params field).append htail
  case reads_packed =>
    intro before after values hnumbers hpayload
    rw [Slot.ofField, hkind] at hnumbers ⊢
    exact Content.readInto_repeated_of_packed hnumbers hpayload
  case reads_unpacked =>
    intro before after values hnumbers
    rw [Slot.ofField, hother] at hnumbers ⊢
    exact Content.readInto_packed_of_repeated hnumbers

/-- However a repeated field is declared, the field declared the other way has its two arms the
other way around, has the same members, initialization and merging, and reads what it writes. -/
theorem interchange_flipped (params : Params) (field : Field) (hlabel : field.label = .repeated) :
    (field.packed = false → Interchange params field field.flipped) ∧
    (field.packed = true → Interchange params field.flipped field) := by
  refine ⟨interchange_of_unpacked params field hlabel, fun hpacked => ?_⟩
  have hflipped : field.flipped.packed = false := by
    simp [flipped, hpacked]
  have h := interchange_of_unpacked params field.flipped hlabel hflipped
  rwa [flipped_flipped] at h

def shirtSizes : Field where
  name := "sizes"
  number := 2
  label := .repeated
  packed := false
  enumName := "Size"
  defaultValue := ⟨"SMALL", 0, 0, "Size"⟩
  messageName := "Shirt"

theorem interchange_flipped_sizes :
    shirtSizes.label = .repeated ∧ shirtSizes.packed = false ∧ shirtSizes.flipped.packed = true ∧
    Interchange {} shirtSizes shirtSizes.flipped ∧
    Interchange {} shirtSizes.flipped.flipped shirtSizes.flipped ∧
    (shirtSizes.parsing {}).text = (shirtSizes.flipped.alternateParsing {}).text ∧
    Content.readInto [.singular 1 0 5, Slot.ofField shirtSizes]
        (Input.ofBytes (Content.encode [.packed 2 [3, -1, 300]]).toArray) =
      (.ok [.singular 1 0 5, .repeated 2 [3, -1, 300]],
        (Input.ofBytes (Content.encode [.packed 2 [3, -1, 300]]).toArray).advance 15) := by
  have h := (interchange_flipped {} shirtSizes rfl).1 rfl
  have hother := (interchange_flipped {} shirtSizes.flipped rfl).2 rfl
  have hnumbers : Content.WellNumbered ([.singular 1 0 5] ++ [Slot.ofField shirtSizes]) :=
    ⟨by decide, by simp [shirtSizes, Slot.ofField, kind, Slot.number, Tag.Fits]⟩
  have hlength : (Content.encode [.packed 2 [3, -1, 300]]).length = 15 := by
    rw [Content.length_encode]
    decide
  have hread := h.reads_packed [.singular 1 0 5] [] [3, -1, 300] hnumbers (by decide)
  refine ⟨rfl, rfl, rfl, h, hother, h.parsing_unpacked.text_eq, ?_⟩
  rw [← hlength]
  exact hread

end EnumWire.Field
