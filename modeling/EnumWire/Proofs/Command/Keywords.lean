import EnumWire.Proofs.Command.Codegen
import EnumWire.Proofs.Command.ModuleFiles
import EnumWire.Proofs.Generated.Keywords
import EnumWire.Proofs.Generated.ModuleNames

/-! # Keywords in the files of a plan

The module of a package declares no keyword, whatever the names of its schema. The files of the tree
take the parts of packages as they are, so they declare the keywords that are parts of one. -/
namespace EnumWire.Command.Codegen

open EnumWire.Files ModuleTree

variable {options : Options} {pools : List Pool} {name : Text}

/-- A file of the tree declares some name as a module. -/
def DeclaresModule (options : Options) (pools : List Pool) (name : Text) : Prop :=
  ∃ path t, Step.write .modules path t ∈ (poolsPlan options pools).steps ∧ name ∈ declared t

theorem isAbove_concat_iff {packages : List Text} :
    (∃ parts, IsAbove packages (parts ++ [name])) ↔
      ∃ package ∈ packages, name ∈ Text.split '.' package := by
  constructor
  · rintro ⟨parts, package, hpackage, hlead⟩
    exact ⟨package, hpackage, hlead.mem (List.mem_append_right _ List.mem_cons_self)⟩
  · rintro ⟨package, hpackage, hpart⟩
    obtain ⟨before, after, hsplit⟩ := List.append_of_mem hpart
    refine ⟨before, package, hpackage, after, ?_⟩
    rw [hsplit, List.append_assoc, List.singleton_append]

/-- Modules are declared under the parts of packages, and the types under a name of their own. -/
theorem declaresModule_iff (h : WellNamed (pools.map Pool.package))
    (hlines : OneLined (pools.map Pool.package)) (hname : name ≠ "types".toList) :
    DeclaresModule options pools name ↔ ∃ pool ∈ pools, name ∈ Text.split '.' pool.package := by
  have hmodules : DeclaresModule options pools name ↔
      ∃ parts, IsAbove (pools.map Pool.package) (parts ++ [name]) := by
    constructor
    · rintro ⟨path, t, hmem, hdeclared⟩
      obtain ⟨pool, -, hrole, -⟩ | htree := mem_poolsPlan_write.1 hmem
      · cases hrole
      · obtain ⟨parts, habove, -, -, rfl⟩ := mem_treeSteps_write.1 htree
        obtain hbelow | ⟨htypes, -⟩ := (mem_declared_text h hlines habove).1 hdeclared
        · exact ⟨parts, hbelow⟩
        · exact absurd htypes hname
    · rintro ⟨parts, hbelow⟩
      have habove := hbelow.of_append
      refine ⟨moduleFile options.output (packageOf parts), _, mem_poolsPlan_write.2 (.inr ?_),
        (mem_declared_text h hlines habove).2 (.inl hbelow)⟩
      exact mem_treeSteps_write.2 ⟨parts, habove, rfl, rfl, rfl⟩
  rw [hmodules, isAbove_concat_iff]
  simp only [List.mem_map, exists_exists_and_eq_and]

/-- No name of a schema is declared as a keyword, and of the parts of packages just the keywords. -/
theorem declares_keywords_iff (options : Options) (h : WellNamed (pools.map Pool.package))
    (hlines : OneLined (pools.map Pool.package)) :
    (∀ pool ∈ pools,
      Module.text options.params pool = .ok (Module.sourceText options.params pool) ∧
        ∀ name ∈ Module.declaredNames options.params pool, name ∉ Names.keywords) ∧
    ∀ name ∈ Names.keywords,
      DeclaresModule options pools name ↔ ∃ pool ∈ pools, name ∈ Text.split '.' pool.package := by
  refine ⟨fun pool _ => ⟨Module.text_eq options.params pool, ?_⟩, fun name hname => ?_⟩
  · exact Module.declaredNames_not_mem_keywords options.params pool
  · have htypes : "types".toList ∉ Names.keywords := by decide +kernel
    exact declaresModule_iff h hlines fun heq => htypes (heq ▸ hname)

/-- A package with keywords for names, and another one beside it. -/
def keywordPools : List Pool := [
  { package := "shop.apparel" },
  { package := "shop.type",
    enums := [{ name := "Self", values := [⟨"self", 0, 0, "Self"⟩, ⟨"type", 1, 1, "Self"⟩] }],
    messages := [{ name := "crate", fields := [{
      name := "type", number := 1, label := .repeated, packed := true, enumName := "Self",
      defaultValue := ⟨"self", 0, 0, "Self"⟩, messageName := "crate" }] }] }]

theorem declares_keywords_iff_keywordPools :
    let options : Options := { files := [], output := "out" }
    (∀ pool ∈ keywordPools, ∀ name ∈ Module.declaredNames {} pool, name ∉ Names.keywords) ∧
      DeclaresModule options keywordPools "type" ∧
      ¬DeclaresModule options keywordPools "crate" := by
  intro options
  have hnamed : WellNamed (keywordPools.map Pool.package) := by
    unfold WellNamed
    decide +kernel
  have hlines : OneLined (keywordPools.map Pool.package) := by
    unfold OneLined
    decide +kernel
  obtain ⟨hnames, hmodules⟩ := declares_keywords_iff options hnamed hlines
  refine ⟨fun pool hpool => (hnames pool hpool).2, ?_, ?_⟩
  · rw [hmodules "type" (by decide +kernel)]
    decide +kernel
  · rw [hmodules "crate" (by decide +kernel)]
    decide +kernel

/-- The last part of a package is declared as it is. -/
theorem keyword_declared_as_module :
    "type".toList ∈ Names.keywords ∧
      DeclaresModule { files := [], output := "out" } [{ package := "shop.type" }] "type" :=
  ⟨by decide +kernel, moduleFile "out" "shop", "pub mod type;\n", by decide +kernel,
    by decide +kernel⟩

end EnumWire.Command.Codegen
