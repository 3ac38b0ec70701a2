import EnumWire.Command.Codegen
import EnumWire.Proofs.Command.Steps
import EnumWire.Proofs.Generated.ModuleTree
import Mathlib.Data.List.Induction

/-! # The files of a tree of packages

The steps for a tree of packages leave one file in the directory of each package that is listed or
above a listed one. From the file of the root the types of every listed package can be reached through
modules that the files declare. -/
namespace EnumWire

open EnumWire.Files FileTree ModuleTree

theorem ModuleTree.IsPart.isPlain {part : Text} (h : IsPart part) : Path.IsPlain part where
  ne_nil := h.ne_nil
  slash_not_mem := h.slash_not_mem
  ne_dot heq := h.dot_not_mem (heq ▸ by decide)
  ne_dots heq := h.dot_not_mem (heq ▸ by decide)

theorem ModuleTree.IsPart.isName {part : Text} (h : IsPart part) : Path.IsName part :=
  h.isPlain.isName

namespace Command.Codegen

variable {output : Path} {packages parts others : List Text} {package : Text} {step : Step}
  {tree left : FileTree} {location : Location}

/-- The file of a package in the tree. -/
def moduleFile (output : Path) (package : Text) : Path :=
  Path.join (moduleDirectory output package) "mod.rs"

/-! ### Where the files are -/

theorem packagePath_packageOf (hparts : ∀ part ∈ parts, IsPart part) :
    packagePath (packageOf parts) = ['/'].intercalate parts := by
  by_cases hne : parts = []
  · rw [hne]
    rfl
  have hslash : '/' ∉ packageOf parts := by
    intro hmem
    obtain ⟨part, hpart, hslash⟩ := Text.exists_mem_split hmem (show '/' ≠ '.' by decide)
    rw [split_packageOf hne hparts] at hpart
    exact (hparts part hpart).slash_not_mem hslash
  have hsplit : Text.split '/' (packagePath (packageOf parts)) = parts :=
    (Text.split_replaced hslash).trans (split_packageOf hne hparts)
  calc packagePath (packageOf parts)
      = ['/'].intercalate (Text.split '/' (packagePath (packageOf parts))) :=
        (Text.intercalate_split '/' _).symm
    _ = ['/'].intercalate parts := by rw [hsplit]

theorem isAbsolute_packagePath (hparts : ∀ part ∈ parts, IsPart part) :
    Path.isAbsolute (packagePath (packageOf parts)) = false := by
  rw [packagePath_packageOf hparts]
  exact Path.isAbsolute_intercalate fun part hpart => (hparts part hpart).isName

theorem names_moduleDirectory (hparts : ∀ part ∈ parts, IsPart part) :
    Path.names (moduleDirectory output (packageOf parts)) = Path.names output ++ parts := by
  unfold moduleDirectory
  split
  · rename_i hnil
    rw [(packageOf_eq_nil_iff hparts).1 hnil, List.append_nil]
  · rw [Path.names_join (isAbsolute_packagePath hparts), packagePath_packageOf hparts,
      Path.names_intercalate fun part hpart => (hparts part hpart).isName]

theorem isAbsolute_moduleDirectory (hparts : ∀ part ∈ parts, IsPart part) :
    Path.isAbsolute (moduleDirectory output (packageOf parts)) = Path.isAbsolute output := by
  unfold moduleDirectory
  split
  · rfl
  · exact Path.isAbsolute_join (isAbsolute_packagePath hparts)

theorem isPlain_moduleName : Path.IsPlain "mod.rs" where
  ne_nil := by decide
  slash_not_mem := by decide
  ne_dot := by decide
  ne_dots := by decide

theorem endsIn_moduleFile (output : Path) (package : Text) :
    (moduleFile output package).EndsIn (Path.names (moduleDirectory output package)) "mod.rs" :=
  isPlain_moduleName.endsIn_join _

/-- The file of a package is below the output directory, where the parts lead. -/
theorem locate_moduleFile (hparts : ∀ part ∈ parts, IsPart part)
    (h : tree.locate (moduleFile output (packageOf parts)) = .ok location) :
    ∃ root, tree.LeadsTo output root ∧ location = root ++ (parts ++ ["mod.rs".toList]) := by
  obtain ⟨above, habove, rfl⟩ := exists_leadsTo_of_locate_join isPlain_moduleName h
  rw [LeadsTo, startOf, names_moduleDirectory hparts, isAbsolute_moduleDirectory hparts] at habove
  obtain ⟨root, hroot, hrest⟩ := foldlM_enter_append_eq_ok_iff.1 habove
  refine ⟨root, hroot, ?_⟩
  rw [eq_append_of_foldlM_enter (fun part hpart => (hparts part hpart).isPlain) hrest,
    List.append_assoc]

theorem eq_of_locate_moduleFile (hparts : ∀ part ∈ parts, IsPart part)
    (hothers : ∀ part ∈ others, IsPart part)
    (h : tree.locate (moduleFile output (packageOf parts)) = .ok location)
    (hother : tree.locate (moduleFile output (packageOf others)) = .ok location) :
    parts = others := by
  obtain ⟨root, hroot, hlocation⟩ := locate_moduleFile hparts h
  obtain ⟨root', hroot', hlocation'⟩ := locate_moduleFile hothers hother
  obtain rfl := Except.ok.inj (hroot.symm.trans hroot')
  exact List.append_cancel_right (List.append_cancel_left (hlocation.symm.trans hlocation'))

theorem moduleFile_inj (hparts : ∀ part ∈ parts, IsPart part)
    (hothers : ∀ part ∈ others, IsPart part)
    (h : moduleFile output (packageOf parts) = moduleFile output (packageOf others)) :
    parts = others := by
  have hnames := congrArg Path.names h
  rw [(endsIn_moduleFile output _).names_eq, (endsIn_moduleFile output _).names_eq,
    names_moduleDirectory hparts, names_moduleDirectory hothers] at hnames
  exact List.append_cancel_left (List.append_cancel_right hnames)

/-! ### Which files there are -/

theorem mem_treeSteps : step ∈ treeSteps output packages ↔
    ∃ package ∈ members packages, step = .create (moduleDirectory output package) ∨
      step = .write .modules (moduleFile output package) (text packages package) := by
  simp only [treeSteps, ModuleTree.files, List.mem_flatMap, List.mem_map]
  constructor
  · rintro ⟨_, ⟨package, hpackage, rfl⟩, hstep⟩
    obtain rfl | hstep := List.mem_cons.1 hstep
    · exact ⟨package, hpackage, .inl rfl⟩
    · exact ⟨package, hpackage, .inr (List.mem_singleton.1 hstep)⟩
  · rintro ⟨package, hpackage, rfl | rfl⟩
    · exact ⟨_, ⟨package, hpackage, rfl⟩, List.mem_cons_self⟩
    · exact ⟨_, ⟨package, hpackage, rfl⟩, List.mem_cons_of_mem _ (List.mem_singleton.2 rfl)⟩

theorem mem_treeSteps_write {role : FileRole} {path : Path} {t : Text} :
    Step.write role path t ∈ treeSteps output packages ↔
      ∃ parts, IsAbove packages parts ∧ role = .modules ∧
        path = moduleFile output (packageOf parts) ∧ t = text packages (packageOf parts) := by
  rw [mem_treeSteps]
  constructor
  · rintro ⟨package, hpackage, hcreate | hwrite⟩
    · cases hcreate
    · obtain ⟨rfl, rfl, rfl⟩ := Step.write.inj hwrite
      obtain ⟨parts, habove, rfl⟩ := mem_members.1 hpackage
      exact ⟨parts, habove, rfl, rfl, rfl⟩
  · rintro ⟨parts, habove, rfl, rfl, rfl⟩
    exact ⟨packageOf parts, mem_members.2 ⟨parts, habove, rfl⟩, .inr rfl⟩

theorem writesByName_of_mem_treeSteps (h : step ∈ treeSteps output packages) :
    step.WritesByName := by
  rintro role path t rfl
  obtain ⟨parts, -, -, rfl, -⟩ := mem_treeSteps_write.1 h
  exact ⟨_, _, endsIn_moduleFile output _⟩

theorem read_moduleFile (h : WellNamed packages) (habove : IsAbove packages parts)
    (hleaves : Step.Leaves (treeSteps output packages) tree left) :
    left.read (moduleFile output (packageOf parts)) = .ok (text packages (packageOf parts)) := by
  obtain ⟨location, hlocate, role, path, t, hmem, hother, hfound⟩ :=
    hleaves.placed _ _ _ (mem_treeSteps_write.2 ⟨parts, habove, rfl, rfl, rfl⟩)
  obtain ⟨others, hothers, -, rfl, rfl⟩ := mem_treeSteps_write.1 hmem
  obtain rfl := eq_of_locate_moduleFile (habove.isPart h) (hothers.isPart h) hlocate hother
  exact read_of_locate hlocate hfound

/-! ### What is reached from the root -/

/-- A module that the files declare, from the root of the tree down. -/
inductive Reached (tree : FileTree) (output : Path) : List Text → Prop
  | root : Reached tree output []
  | declared {parts : List Text} {t name : Text} : Reached tree output parts →
      tree.read (moduleFile output (packageOf parts)) = .ok t → Declares t name →
      Reached tree output (parts ++ [name])

/-- What the steps leave where all of them succeed. -/
structure Mirrors (output : Path) (packages : List Text) (tree left : FileTree) : Prop where
  /-- The file of a package that is listed or above a listed one, and those that it declares. -/
  reads : ∀ parts, IsAbove packages parts → ∃ modules t,
    left.read (moduleFile output (packageOf parts)) = .ok t ∧ Describes packages parts modules t ∧
      ∀ child ∈ modules, ∃ u, left.read (moduleFile output (packageOf (parts ++ [child]))) = .ok u
  types_reached : ∀ package ∈ packages,
    Reached left output (Text.split '.' package ++ ["types".toList])
  /-- Else there are only more directories. -/
  find?_eq : ∀ location, left.find? location = tree.find? location ∨
    tree.find? location = none ∧ left.find? location = some .directory ∨
    ∃ parts, IsAbove packages parts ∧
      left.locate (moduleFile output (packageOf parts)) = .ok location

/-- A tree of files for the tree of packages. -/
structure HasModuleTree (output : Path) (packages : List Text) : Prop where
  /-- Only the set of packages counts. -/
  treeSteps_congr : ∀ others, (∀ package, package ∈ others ↔ package ∈ packages) →
    treeSteps output others = treeSteps output packages
  /-- Without packages nothing is done. -/
  treeSteps_nil : packages = [] → treeSteps output packages = []
  /-- There is a file for each package that is listed or above a listed one, and for no other. -/
  writes_iff : ∀ parts, (∀ part ∈ parts, IsPart part) →
    ((∃ t, Step.write .modules (moduleFile output (packageOf parts)) t ∈ treeSteps output packages) ↔
      IsAbove packages parts)
  mirrors : ∀ s t : Surroundings, s.tree.WellFormed →
    Step.performAll (treeSteps output packages) s = (.ok (), t) →
    Mirrors output packages s.tree t.tree

theorem reached_of_isAbove (h : WellNamed packages)
    (hleaves : Step.Leaves (treeSteps output packages) tree left) (habove : IsAbove packages parts) :
    Reached left output parts := by
  induction parts using List.reverseRecOn with
  | nil => exact .root
  | append_singleton parts child ih =>
    have hdescribes := describes_text h habove.of_append
    refine (ih habove.of_append).declared (read_moduleFile h habove.of_append hleaves) ?_
    exact hdescribes.declares ((hdescribes.mem_iff child).2 habove)

theorem mirrors_of_leaves (h : WellNamed packages)
    (hleaves : Step.Leaves (treeSteps output packages) tree left) :
    Mirrors output packages tree left where
  reads parts habove := by
    have hdescribes := describes_text h habove
    refine ⟨_, _, read_moduleFile h habove hleaves, hdescribes, fun child hchild => ?_⟩
    exact ⟨_, read_moduleFile h ((hdescribes.mem_iff child).1 hchild) hleaves⟩
  types_reached package hpackage := by
    have habove := isAbove_split hpackage
    refine (reached_of_isAbove h hleaves habove).declared (read_moduleFile h habove hleaves) ?_
    exact (describes_text h habove).declares_types ((packageOf_split package).symm ▸ hpackage)
  find?_eq location := by
    refine (hleaves.find?_eq location).imp_right (Or.imp_right ?_)
    rintro ⟨role, path, t, hmem, hlocate, -⟩
    obtain ⟨parts, habove, -, rfl, -⟩ := mem_treeSteps_write.1 hmem
    exact ⟨parts, habove, hlocate⟩

/-- The files mirror the tree of packages: there is one for each package that is listed or above a
listed one, which declares the modules right below it, so that all listed packages are reached. -/
theorem treeSteps_mirror_packages (output : Path) (h : WellNamed packages) :
    HasModuleTree output packages where
  treeSteps_congr others hsame := by rw [treeSteps, treeSteps, files_congr hsame]
  treeSteps_nil hnil := by
    rw [hnil]
    rfl
  writes_iff parts hparts := by
    constructor
    · rintro ⟨t, hmem⟩
      obtain ⟨others, hothers, -, hpath, -⟩ := mem_treeSteps_write.1 hmem
      exact moduleFile_inj hparts (hothers.isPart h) hpath ▸ hothers
    · exact fun habove => ⟨_, mem_treeSteps_write.2 ⟨parts, habove, rfl, rfl, rfl⟩⟩
  mirrors s t hwell hrun :=
    mirrors_of_leaves h
      (Step.leaves_of_performAll hwell (fun _ => writesByName_of_mem_treeSteps) hrun)

/-- One package above another, and one beside them. -/
def shopPackages : List Text := ["shop.apparel".toList, "shop".toList, "audit".toList]

theorem shopPackages_mirrored : WellNamed shopPackages ∧ HasModuleTree "out" shopPackages ∧
    ∃ t, Step.performAll (treeSteps "out" shopPackages) {} = (.ok (), t) ∧
      Mirrors "out" shopPackages {} t.tree ∧
      t.tree.read "out/mod.rs" = .ok "pub mod audit;\npub mod shop;\n" ∧
      t.tree.read "out/shop/mod.rs" =
        .ok "pub mod apparel;\n\npub mod types;\npub use types::*;\n" := by
  have hnamed : WellNamed shopPackages := by
    unfold WellNamed
    decide +kernel
  have hmirrored := treeSteps_mirror_packages "out" hnamed
  have hrun : Step.performAll (treeSteps "out" shopPackages) {} =
      (.ok (), (Step.performAll (treeSteps "out" shopPackages) {}).2) := by decide +kernel
  refine ⟨hnamed, hmirrored, _, hrun, hmirrored.mirrors _ _ wellFormed_empty hrun, ?_, ?_⟩
  · decide +kernel
  · decide +kernel

end Command.Codegen
end EnumWire
