import EnumWire.Proofs.Generated.FieldSource

/-! # Messages print their source

Every part of a message prints whole lines, so parts may stand behind each other and inside blocks.
What the script of a message prints is the text of its source, at any depth. -/
namespace EnumWire

open MessageSource

/-! ### Parts of a message -/

namespace Message

section

variable (message : Message)

theorem printsLines_structHead :
    (message.say [
      "/* message $classname$ */",
      "#[derive(Debug, Clone, PartialEq, Eq)]",
      "pub struct $classname$ \x7b"]).PrintsLines
    (Text.lines [
      "/* message " ++ Names.escape message.name ++ " */",
      "#[derive(Debug, Clone, PartialEq, Eq)]",
      "pub struct " ++ Names.escape message.name ++ " \x7b"]) := by
  refine Script.printsLines_print ?_
  unfold placeholders
  repeat rw [String.toList_ofList]
  simp only [List.append_assoc]
  rfl

theorem printsLines_defaultHead :
    (message.say [
      "impl Default for $classname$ \x7b",
      "    fn default() -> Self \x7b",
      "        Self \x7b"]).PrintsLines
    (Text.lines [
      "impl Default for " ++ Names.escape message.name ++ " \x7b",
      "    fn default() -> Self \x7b",
      "        Self \x7b"]) := by
  refine Script.printsLines_print ?_
  unfold placeholders
  repeat rw [String.toList_ofList]
  simp only [List.append_assoc]
  rfl

theorem printsLines_cacheHead :
    (message.say [
      "/// Packed payload lengths computed by `$classname$::compute_size`.",
      "#[derive(Debug, Clone, Copy, PartialEq, Eq)]",
      "pub struct $size_cache$ \x7b"]).PrintsLines
    (Text.lines [
      "/// Packed payload lengths computed by `" ++ Names.escape message.name ++ "::compute_size`.",
      "#[derive(Debug, Clone, Copy, PartialEq, Eq)]",
      "pub struct " ++ Names.sizeCache message.name ++ " \x7b"]) := by
  refine Script.printsLines_print ?_
  unfold placeholders
  repeat rw [String.toList_ofList]
  simp only [List.append_assoc]
  rfl

theorem printsLines_cacheImplHead :
    (message.say ["impl $size_cache$ \x7b"]).PrintsLines
      (Text.lines ["impl " ++ Names.sizeCache message.name ++ " \x7b"]) := by
  refine Script.printsLines_print ?_
  unfold placeholders
  repeat rw [String.toList_ofList]
  simp only [List.append_assoc]
  rfl

theorem printsLines_implHead :
    (message.say ["impl $classname$ \x7b"]).PrintsLines
      (Text.lines ["impl " ++ Names.escape message.name ++ " \x7b"]) := by
  refine Script.printsLines_print ?_
  unfold placeholders
  repeat rw [String.toList_ofList]
  simp only [List.append_assoc]
  rfl

theorem printsLines_sizeHead :
    (message.say [
      "/// Returns the encoded length and the payload lengths `write_to` needs.",
      "pub fn compute_size(&self) -> (usize, $size_cache$) \x7b",
      "    let mut size = 0;",
      "    let mut size_cache = $size_cache$ \x7b"]).PrintsLines
    (Text.lines [
      "/// Returns the encoded length and the payload lengths `write_to` needs.",
      "pub fn compute_size(&self) -> (usize, " ++ Names.sizeCache message.name ++ ") \x7b",
      "    let mut size = 0;",
      "    let mut size_cache = " ++ Names.sizeCache message.name ++ " \x7b"]) := by
  refine Script.printsLines_print ?_
  unfold placeholders
  repeat rw [String.toList_ofList]
  simp only [List.append_assoc]
  rfl

-- Both lines are longer than the usual depth of a recursion.
set_option maxRecDepth 2000 in
theorem printsLines_writeHead (output cache : Text) :
    Script.PrintsLines
      [.print (message.placeholders ++
          ([("size_cache_arg", cache), ("output_arg", output)] : Variables))
        (Text.lines [
          "/// Serializes with payload lengths from the `compute_size` call made on this unchanged message.",
          "pub fn write_to(&self, $output_arg$: &mut nano::CodedOutputStream, $size_cache_arg$: &$size_cache$) \x7b"])]
      (Text.lines [
        "/// Serializes with payload lengths from the `compute_size` call made on this unchanged message.",
        "pub fn write_to(&self, " ++ output ++ ": &mut nano::CodedOutputStream, " ++
          cache ++ ": &" ++ Names.sizeCache message.name ++ ") \x7b"]) := by
  refine Script.printsLines_print ?_
  unfold placeholders
  repeat rw [String.toList_ofList]
  simp only [List.append_assoc]
  rfl

theorem printsLines_mergeHead (other : Text) :
    Script.PrintsLines [.raw ("pub fn merge_from(&mut self, " ++ other ++ ": &Self) \x7b\n")]
      (Text.lines ["pub fn merge_from(&mut self, " ++ other ++ ": &Self) \x7b"]) := by
  have hline : Text.lines ["pub fn merge_from(&mut self, " ++ other ++ ": &Self) \x7b"] =
      "pub fn merge_from(&mut self, " ++ other ++ ": &Self) \x7b\n" := by
    simp [Text.lines]
  rw [← hline]
  exact Script.printsLines_raw (Printer.endsLine_lines _)

theorem printsLines_end : Script.PrintsLines [.raw "\x7d\n\n"] (Text.lines ["\x7d", ""]) :=
  Script.printsLines_raw rfl

theorem printsLines_innerEnd :
    Script.PrintsLines [.raw "        \x7d\n    \x7d\n\x7d\n\n"]
      (Text.lines ["        \x7d", "    \x7d", "\x7d", ""]) :=
  Script.printsLines_raw rfl

theorem hasSizeCache_iff : message.hasSizeCache = true ↔ message.packedNames ≠ [] := by
  unfold hasSizeCache packedNames
  rw [List.any_eq_true, ne_eq, List.map_eq_nil_iff, List.filter_eq_nil_iff]
  simp [Field.hasSizeCache]

end

/-- Fragments of the fields stand in declaration order. -/
theorem printsLines_fields {α : Type} (fields : List Field) {script : Field → Script}
    {part : Field → α} {text : α → Text}
    (h : ∀ field, (script field).PrintsLines (text (part field))) :
    Script.PrintsLines (fields.flatMap script) ((fields.map part).flatMap text) := by
  rw [List.flatMap_map]
  exact .flatMap fun field _ => h field

variable (params : Params) (message : Message)

theorem printsLines_structScript :
    (message.structScript params).PrintsLines (message.source params).structText :=
  .append (.append message.printsLines_structHead
    (printsLines_fields _ (Field.printsLines_members params)).nested) printsLines_end

theorem printsLines_defaultScript :
    (message.defaultScript params).PrintsLines (message.source params).defaultText := by
  have hfields := (printsLines_fields message.fields
    (Field.printsLines_initialization params)).nested.nested.nested
  rw [Printer.indented_indented, Printer.indented_indented] at hfields
  exact .append (.append message.printsLines_defaultHead hfields) printsLines_innerEnd

/-- The size cache has methods exactly where a field is packed. -/
theorem printsLines_cacheImpl :
    Script.PrintsLines
      (if message.hasSizeCache then
        message.say ["impl $size_cache$ \x7b"] ++
        Script.nested (message.fields.flatMap (Field.cacheAccessors params)) ++ [.raw "\x7d\n\n"]
      else [])
      (if (message.source params).cacheAccessors = [] then []
      else
        Text.lines ["impl " ++ (message.source params).cacheName ++ " \x7b"] ++
        Printer.indented 1 true ((message.source params).cacheAccessors.flatMap CacheAccessor.text) ++
        Text.lines ["\x7d", ""]) := by
  have hnil : (message.source params).cacheAccessors = [] ↔ ¬ message.hasSizeCache = true := by
    rw [hasSizeCache_iff, not_not]
    exact List.map_eq_nil_iff
  by_cases hcache : message.hasSizeCache = true
  · have haccessors := Field.printsLines_packed message.fields
      (fun name => CacheAccessor.text ⟨name, name⟩) (Field.printsLines_cacheAccessor params)
    rw [← List.flatMap_map _ CacheAccessor.text] at haccessors
    rw [if_pos hcache, if_neg (by rwa [hnil, not_not])]
    exact .append (.append message.printsLines_cacheImplHead haccessors.nested) printsLines_end
  · rw [if_neg hcache, if_pos (hnil.2 hcache)]
    exact Script.printsLines_nil

theorem printsLines_sizeCacheScript :
    (message.sizeCacheScript params).PrintsLines (message.source params).cacheText :=
  .append (.append (.append message.printsLines_cacheHead
    (Field.printsLines_packed message.fields (fun name => Text.lines [name ++ ": usize,"])
      (Field.printsLines_cacheMember params)).nested) printsLines_end)
    (printsLines_cacheImpl params message)

theorem printsLines_presenceAccessors :
    (message.presenceAccessors params).PrintsLines
      ((message.source params).accessors.flatMap Accessor.text) :=
  printsLines_fields _ (Field.printsLines_presence params)

theorem printsLines_mergeScript :
    (message.mergeScript params).PrintsLines (message.source params).mergeText :=
  .append (.append (printsLines_mergeHead _)
    (printsLines_fields _ (Field.printsLines_merging params)).nested) printsLines_end

theorem printsLines_parseScript :
    (message.parseScript params).PrintsLines (message.source params).parseText := by
  have harms : Script.PrintsLines (message.fields.flatMap (fieldArms params))
      ((message.fields.flatMap Field.armSources).flatMap ArmSource.text) := by
    rw [List.flatMap_assoc]
    exact .flatMap fun field _ => Field.printsLines_fieldArms params field
  have hskip : Script.PrintsLines [.raw "_ => input.skip_field(tag)?,\n"]
      (Text.lines ["_ => input.skip_field(tag)?,"]) := Script.printsLines_raw rfl
  have hdispatch := (harms.append hskip).nested.nested.nested
  rw [Printer.indented_indented, Printer.indented_indented] at hdispatch
  exact .append (.append (Script.printsLines_raw (Printer.endsLine_lines dispatchLines)) hdispatch)
    printsLines_innerEnd

theorem printsLines_sizeScript :
    (message.sizeScript params).PrintsLines (message.source params).sizeText := by
  have hstart := (Field.printsLines_packed message.fields (fun name => Text.lines [name ++ ": 0,"])
    (Field.printsLines_cacheStart params)).nested
  have hclose : Script.PrintsLines [.raw "\x7d;\n"] (Text.lines ["\x7d;"]) :=
    Script.printsLines_raw rfl
  have hresult : Script.PrintsLines [.raw "(size, size_cache)\n"]
      (Text.lines ["(size, size_cache)"]) := Script.printsLines_raw rfl
  have hfields := printsLines_fields message.fields (Field.printsLines_size params)
  exact .append (.append message.printsLines_sizeHead
    (((hstart.append hclose).append hfields).append hresult).nested) printsLines_end

theorem printsLines_writeScript :
    (message.writeScript params).PrintsLines (message.source params).writeText :=
  .append (.append (message.printsLines_writeHead _ _)
    (printsLines_fields _ (Field.printsLines_serialization params)).nested) printsLines_end

theorem printsLines_methods :
    Script.PrintsLines
      (message.presenceAccessors params ++ message.mergeScript params ++
        message.parseScript params ++ message.sizeScript params ++ message.writeScript params ++
        codecHelpers)
      ((message.source params).accessors.flatMap Accessor.text ++
        (message.source params).mergeText ++ (message.source params).parseText ++
        (message.source params).sizeText ++ (message.source params).writeText ++
        Text.lines codecHelperLines) :=
  (((((message.printsLines_presenceAccessors params).append
    (message.printsLines_mergeScript params)).append
    (message.printsLines_parseScript params)).append
    (message.printsLines_sizeScript params)).append
    (message.printsLines_writeScript params)).append
    (Script.printsLines_raw (Printer.endsLine_lines codecHelperLines))

theorem printsLines_script :
    (message.script params).PrintsLines (message.source params).text := by
  have hbefore := ((message.printsLines_structScript params).append
    (message.printsLines_defaultScript params)).append (message.printsLines_sizeCacheScript params)
  have himpl := (message.printsLines_implHead.append (message.printsLines_methods params).nested).append
    printsLines_end
  have hscript : message.script params =
      (message.structScript params ++ message.defaultScript params ++
        message.sizeCacheScript params) ++
      (message.say ["impl $classname$ \x7b"] ++
        Script.nested (message.presenceAccessors params ++ message.mergeScript params ++
          message.parseScript params ++ message.sizeScript params ++ message.writeScript params ++
          codecHelpers) ++ [.raw "\x7d\n\n"]) := by
    simp only [script, List.append_assoc]
  rw [hscript]
  exact hbefore.append himpl

end Message
end EnumWire
