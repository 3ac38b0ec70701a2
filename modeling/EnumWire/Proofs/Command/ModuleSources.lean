import EnumWire.Proofs.Command.Codegen
import EnumWire.Proofs.Command.ModuleFiles
import EnumWire.Proofs.Generated.ModuleNames

/-! # The sources of declared modules

A module that a file declares has its source in the types beside the file, or in the file of the
package below. Exactly one of them is there, but where a package `types` is below one with types. -/
namespace EnumWire.Command.Codegen

open EnumWire.Files ModuleTree

variable {options : Options} {pools : List Pool} {output path : Path} {parts : List Text}
  {name t : Text} {role : FileRole}

/-- A file that a module may have for its source when the file of a package declares it. -/
def IsSource (output : Path) (parts : List Text) (name : Text) (path : Path) : Prop :=
  name = "types".toList ∧ path = typesFile output (packageOf parts) ∨
    path = moduleFile output (packageOf (parts ++ [name]))

def IsWritten (steps : List Step) (path : Path) : Prop := ∃ role t, .write role path t ∈ steps

/-! ### Which sources are written -/

theorem isPlain_typesName : Path.IsPlain "types.rs" where
  ne_nil := by decide
  slash_not_mem := by decide
  ne_dot := by decide
  ne_dots := by decide

theorem names_typesFile (hparts : ∀ part ∈ parts, IsPart part) :
    Path.names (typesFile output (packageOf parts)) =
      Path.names output ++ parts ++ ["types.rs".toList] := by
  rw [typesFile, (isPlain_typesName.endsIn_join _).names_eq, typesDirectory,
    Path.names_join (isAbsolute_packagePath hparts), packagePath_packageOf hparts,
    Path.names_intercalate fun part hpart => (hparts part hpart).isName]

theorem typesFile_ne_moduleFile (hparts : ∀ part ∈ parts, IsPart part) (package : Text) :
    typesFile output (packageOf parts) ≠ moduleFile output package := by
  intro heq
  have hnames := congrArg Path.names heq
  rw [names_typesFile hparts, (endsIn_moduleFile output package).names_eq] at hnames
  have hlast := List.append_inj_right' hnames rfl
  exact absurd hlast (by decide)

theorem isWritten_typesFile (h : WellNamed (pools.map Pool.package))
    (hparts : ∀ part ∈ parts, IsPart part) :
    IsWritten (poolsPlan options pools).steps (typesFile options.output (packageOf parts)) ↔
      packageOf parts ∈ pools.map Pool.package := by
  constructor
  · rintro ⟨role, t, hmem⟩
    obtain ⟨pool, hpool, -, hpath, -⟩ | htree := mem_poolsPlan_write.1 hmem
    · have hpackage : pool.package ∈ pools.map Pool.package := List.mem_map_of_mem hpool
      have hnames := congrArg Path.names hpath
      rw [← packageOf_split pool.package, names_typesFile hparts,
        names_typesFile (h.isPart hpackage)] at hnames
      have hsame := List.append_cancel_left (List.append_cancel_right hnames)
      rw [hsame, packageOf_split]
      exact hpackage
    · obtain ⟨others, -, -, hpath, -⟩ := mem_treeSteps_write.1 htree
      exact absurd hpath (typesFile_ne_moduleFile hparts _)
  · intro hlisted
    obtain ⟨pool, hpool, hpackage⟩ := List.mem_map.1 hlisted
    exact ⟨_, _, mem_poolsPlan_write.2 (.inl ⟨pool, hpool, rfl, hpackage ▸ rfl, rfl⟩)⟩

theorem isWritten_moduleFile (h : WellNamed (pools.map Pool.package))
    (hparts : ∀ part ∈ parts, IsPart part) :
    IsWritten (poolsPlan options pools).steps (moduleFile options.output (packageOf parts)) ↔
      IsAbove (pools.map Pool.package) parts := by
  constructor
  · rintro ⟨role, t, hmem⟩
    obtain ⟨pool, hpool, -, hpath, -⟩ | htree := mem_poolsPlan_write.1 hmem
    · rw [← packageOf_split pool.package] at hpath
      exact absurd hpath.symm
        (typesFile_ne_moduleFile (h.isPart (List.mem_map_of_mem hpool)) _)
    · obtain ⟨others, hothers, -, hpath, -⟩ := mem_treeSteps_write.1 htree
      exact moduleFile_inj hparts (hothers.isPart h) hpath ▸ hothers
  · exact fun habove =>
      ⟨_, _, mem_poolsPlan_write.2 (.inr (mem_treeSteps_write.2 ⟨parts, habove, rfl, rfl, rfl⟩))⟩

/-! ### One declaration and one source for each module -/

theorem existsUnique_source_iff (h : WellNamed (pools.map Pool.package))
    (habove : IsAbove (pools.map Pool.package) parts) (hpart : IsPart name)
    (hname : IsAbove (pools.map Pool.package) (parts ++ [name]) ∨
      name = "types".toList ∧ packageOf parts ∈ pools.map Pool.package) :
    (∃! path, IsSource options.output parts name path ∧
      IsWritten (poolsPlan options pools).steps path) ↔
      ¬(name = "types".toList ∧ Clashes (pools.map Pool.package) parts) := by
  have hparts := habove.isPart h
  have hbelow : ∀ part ∈ parts ++ [name], IsPart part := by
    intro part hmem
    obtain hmem | hmem := List.mem_append.1 hmem
    · exact hparts part hmem
    · exact List.mem_singleton.1 hmem ▸ hpart
  constructor
  · rintro ⟨path, -, hunique⟩ ⟨rfl, hlisted, hpackage⟩
    have htypes := hunique _ ⟨.inl ⟨rfl, rfl⟩, (isWritten_typesFile h hparts).2 hlisted⟩
    have hmodules := hunique _ ⟨.inr rfl, (isWritten_moduleFile h hbelow).2 hpackage⟩
    exact typesFile_ne_moduleFile hparts _ (htypes.trans hmodules.symm)
  · intro hfree
    obtain hpackage | ⟨rfl, hlisted⟩ := hname
    · refine ⟨_, ⟨.inr rfl, (isWritten_moduleFile h hbelow).2 hpackage⟩, ?_⟩
      rintro path ⟨⟨rfl, rfl⟩ | rfl, hwritten⟩
      · exact absurd ⟨rfl, (isWritten_typesFile h hparts).1 hwritten, hpackage⟩ hfree
      · rfl
    · refine ⟨_, ⟨.inl ⟨rfl, rfl⟩, (isWritten_typesFile h hparts).2 hlisted⟩, ?_⟩
      rintro path ⟨⟨-, rfl⟩ | rfl, hwritten⟩
      · rfl
      · exact absurd ⟨rfl, hlisted, (isWritten_moduleFile h hbelow).1 hwritten⟩ hfree

/-- The file of a package declares each module once, and each of them has one source, exactly where
no package `types` is below one with types. -/
theorem modules_declared_once_iff (h : WellNamed (pools.map Pool.package))
    (hlines : OneLined (pools.map Pool.package))
    (hmem : Step.write role path t ∈ treeSteps options.output (pools.map Pool.package)) :
    ∃ parts, path = moduleFile options.output (packageOf parts) ∧
      ((declared t).Nodup ↔ ¬Clashes (pools.map Pool.package) parts) ∧
      ∀ name ∈ declared t,
        (∃! source, IsSource options.output parts name source ∧
          IsWritten (poolsPlan options pools).steps source) ↔
          ¬(name = "types".toList ∧ Clashes (pools.map Pool.package) parts) := by
  obtain ⟨parts, habove, -, rfl, rfl⟩ := mem_treeSteps_write.1 hmem
  refine ⟨parts, rfl, nodup_declared_text_iff h hlines habove, fun name hname => ?_⟩
  have hsource := (mem_declared_text h hlines habove).1 hname
  refine existsUnique_source_iff h habove ?_ hsource
  obtain hbelow | ⟨rfl, -⟩ := hsource
  · exact hbelow.isPart h name (List.mem_append_right _ List.mem_cons_self)
  · exact ⟨by decide, by decide, by decide⟩

/-- Packages in which no module has the name of the types above it. -/
theorem shop_modules_declared_once :
    let options : Options := { files := [], output := "out" }
    let pools : List Pool := [{ package := "shop" }, { package := "shop.apparel" }]
    let packages := pools.map Pool.package
    let t : Text := "pub mod apparel;\n\npub mod types;\npub use types::*;\n"
    WellNamed packages ∧ OneLined packages ∧
      Step.write .modules (moduleFile options.output "shop") t ∈ treeSteps options.output packages ∧
      ∃ parts, moduleFile options.output "shop" = moduleFile options.output (packageOf parts) ∧
        ((declared t).Nodup ↔ ¬Clashes packages parts) ∧
        ∀ name ∈ declared t,
          (∃! source, IsSource options.output parts name source ∧
            IsWritten (poolsPlan options pools).steps source) ↔
            ¬(name = "types".toList ∧ Clashes packages parts) := by
  intro options pools packages t
  have hnamed : WellNamed packages := by
    unfold WellNamed
    decide +kernel
  have hlines : OneLined packages := by
    unfold OneLined
    decide +kernel
  have hmem : Step.write .modules (moduleFile options.output "shop") t ∈
      treeSteps options.output packages := by decide +kernel
  exact ⟨hnamed, hlines, hmem, modules_declared_once_iff hnamed hlines hmem⟩

/-- The types of a package and a package `types` below it are declared under one name. -/
theorem types_declared_twice :
    let t : Text := "pub mod types;\n\npub mod types;\npub use types::*;\n"
    Step.write .modules (moduleFile "out" "a") t ∈ treeSteps "out" ["a".toList, "a.types".toList] ∧
      ¬(declared t).Nodup := by
  decide +kernel

end EnumWire.Command.Codegen
