import EnumWire.Proofs.Descriptor.Resolution
import EnumWire.Proofs.Generated.ClosedNames
import EnumWire.Proofs.Generated.Module
import EnumWire.Proofs.Generated.Scopes

/-! # Messages name declared constants

A field keeps the value that it was linked to, and its message names the constant of that value. The
enumerations of the same module declare it, whatever the style and the names are. -/
namespace EnumWire

open MessageSource

theorem Field.constant?_initial (params : Params) (field : Field) :
    (field.initial params).constant? =
      (field.presence? params).map fun accessor => accessor.comparison.constant := by
  unfold initial presence?
  cases field.kind <;> rfl

namespace Message

variable (params : Params) (message : Message)

/-- The constants of the values that the singular fields default to. -/
def defaultRefs : List Text := message.singularFields.map (Names.defaultRef params)

theorem defaultRefs_eq : message.defaultRefs params = message.fields.filterMap fun field =>
    (field.presence? params).map fun accessor => accessor.comparison.constant :=
  map_filter_kind _ fun field => by
    unfold Field.presence?
    cases field.kind <;> rfl

/-- Wherever a message names constants, they are what its singular fields default to. -/
structure NamesDefaults (source : MessageSource) : Prop where
  initial : source.initial.filterMap Initial.constant? = message.defaultRefs params
  accessors : source.accessors.map (fun accessor => accessor.comparison.constant) =
    message.defaultRefs params
  writing : (source.writing.filterMap Writing.guard?).map Comparison.constant =
    message.defaultRefs params
  sizing : (source.sizing.filterMap Sizing.guard?).map Comparison.constant =
    message.defaultRefs params

theorem namesDefaults_source : message.NamesDefaults params (message.source params) where
  initial := by
    change (message.fields.map _).filterMap _ = _
    rw [defaultRefs_eq, List.filterMap_map]
    exact List.filterMap_congr fun field _ => field.constant?_initial params
  accessors := List.map_map
  writing := by
    change ((message.fields.map _).filterMap _).map _ = _
    rw [defaultRefs_eq, List.filterMap_map, List.map_filterMap]
    refine List.filterMap_congr fun field _ => ?_
    rw [Function.comp, Field.guard?_writing, Option.map_map]
    rfl
  sizing := by
    change ((message.fields.map _).filterMap _).map _ = _
    rw [defaultRefs_eq, List.filterMap_map, List.map_filterMap]
    refine List.filterMap_congr fun field _ => ?_
    rw [Function.comp, Field.guard?_sizing, Option.map_map]
    rfl

end Message

namespace Pool

variable {file : SchemaFile} {pool : Pool}

/-- An expression names a declared constant, with this number if its scope has no name twice. -/
def Declares (params : Params) (pool : Pool) (expression : Text) (number : Int32) : Prop :=
  ∃ scope ∈ pool.scopes params, ∃ declaration ∈ scope.declarations params,
    expression = scope.reference declaration.name ∧
    (((scope.declarations params).map Constants.Declaration.name).Nodup →
      scope.number? params declaration.name = some number)

theorem declares_constantRef (params : Params) {enum : EnumType} {value : EnumValue}
    (henum : enum ∈ pool.enums) (hplace : enum.InPlace) (hmem : value ∈ enum.values) :
    pool.Declares params (Names.constantRef params value) value.number := by
  obtain ⟨scope, hscope, hvalue, href⟩ := exists_scope params henum hplace hmem
  obtain ⟨declaration, hdeclaration, hname⟩ := scope.exists_declaration params hvalue
  refine ⟨scope, hscope, declaration, hdeclaration, by rw [hname, href], fun hnames => ?_⟩
  rw [hname]
  exact Scope.number?_constant hnames hvalue

/-- A field keeps a value of an enumeration that the pool still has. -/
theorem defaultValue_mem (h : ofSchema file = .ok pool) {message : Message}
    (hmessage : message ∈ pool.messages) {field : Field} (hfield : field ∈ message.fields) :
    ∃ enum ∈ pool.enums, enum.InPlace ∧ field.defaultValue ∈ enum.values := by
  have hresolves := resolvesTo_of_ofSchema h
  obtain ⟨definition, -, hmessage⟩ := Traversal.exists_of_mem_right hresolves.messages hmessage
  obtain ⟨fieldDef, -, hfield⟩ := Traversal.exists_of_mem_right hmessage.fields hfield
  obtain ⟨enum, henum, -, hdefault, -⟩ := hfield.default
  obtain ⟨enumDef, -, rfl⟩ := Option.map_eq_some_iff.1 (hresolves.enums enum henum)
  exact ⟨_, henum, EnumType.inPlace_ofDef enumDef, List.mem_of_getElem? hdefault⟩

/-- The module of a file that resolves declares every constant that its messages name. -/
theorem text_declares_defaults (params : Params) (h : ofSchema file = .ok pool) :
    Module.text params pool = .ok (Module.sourceText params pool) ∧
    ∀ message ∈ pool.messages,
      message.NamesDefaults params (message.source params) ∧
      ∀ field ∈ message.fields,
        pool.Declares params (Names.defaultRef params field) field.defaultValue.number := by
  refine ⟨Module.text_eq params pool, fun message hmessage =>
    ⟨message.namesDefaults_source params, fun field hfield => ?_⟩⟩
  obtain ⟨enum, henum, hplace, hmem⟩ := defaultValue_mem h hmessage hfield
  exact declares_constantRef params henum hplace hmem

/-- Keywords for names, an enumeration that is declared twice, and an alias to default to. -/
def keywordFile : SchemaFile where
  package := "shop"
  enums := [
    { name := "Self", values := [{ name := "self", number := 7 }] },
    { name := "Self", values := [{ name := "type", number := -1 }, { name := "self", number := -1 }] }]
  messages := [{
    name := "crate"
    fields := [{ name := "type", number := 1, typeName := "Self", defaultName := some "self" }] }]

def keywordPool : Pool where
  package := "shop"
  enums := [{ name := "Self", values := [⟨"type", -1, 0, "Self"⟩, ⟨"self", -1, 1, "Self"⟩] }]
  messages := [{ name := "crate", fields := [{
    name := "type", number := 1, label := .optional, packed := false, enumName := "Self",
    defaultValue := ⟨"self", -1, 1, "Self"⟩, messageName := "crate" }] }]

theorem text_declares_defaults_keywordFile :
    ofSchema keywordFile = .ok keywordPool ∧ keywordPool.Declares {} "Self_::self_" (-1) ∧
      (keywordPool.scopes {}).map (fun scope => scope.number? {} "self_") = [some (-1)] := by
  have h : ofSchema keywordFile = .ok keywordPool := by decide +kernel
  have hfields := ((text_declares_defaults {} h).2 _ List.mem_cons_self).2
  have href : Names.defaultRef {} keywordPool.messages[0].fields[0] = "Self_::self_" := by
    decide +kernel
  refine ⟨h, ?_, by decide +kernel⟩
  rw [← href]
  exact hfields _ List.mem_cons_self

end Pool
end EnumWire
