import EnumWire.Proofs.Command.ModuleSources

/-! # The directories of packages

A package has its directory below the output, where its names lead straight down; one that begins
with a separator has it below the root of all files. Packages of which no part is empty or holds a
slash have a directory each. -/
namespace EnumWire.Command.Codegen

open EnumWire.Files FileTree ModuleTree

variable {output : Path} {packages parts more : List Text} {package other member name : Text}
  {tree : FileTree} {root location : Location}

/-- The directory of a package where the output leads to a root. -/
def home (root : Location) (package : Text) : Location :=
  startBelow root (packagePath package) ++ (packagePath package).names

/-- What is on the way to the output or below it, or in or above a directory that is not. -/
def Touches (tree : FileTree) (output : Path) (root : Location) (package : Text)
    (location : Location) : Prop :=
  tree.OnWay output location ∨ root <+: location ∨
    (packagePath package).isAbsolute = true ∧ location.dropLast <+: home root package

theorem dot_not_mem_packagePath (package : Text) : '.' ∉ packagePath package := by
  intro hmem
  obtain ⟨c, -, hc⟩ := List.mem_map.1 hmem
  split at hc
  · cases hc
  · contradiction

/-- Dots have become slashes, so no name leads up or nowhere. -/
theorem isPlain_of_mem_names (h : name ∈ (packagePath package).names) : Path.IsPlain name := by
  have hname := Path.isName_of_mem_names h
  have hdot : '.' ∉ name := fun hmem =>
    dot_not_mem_packagePath package (Text.mem_of_mem_split (List.mem_of_mem_filter h) hmem)
  refine ⟨hname.ne_nil, hname.slash_not_mem, ?_, ?_⟩
  · rintro rfl
    exact hdot (by decide)
  · rintro rfl
    exact hdot (by decide)

theorem startBelow_of_isAbsolute (h : (packagePath package).isAbsolute = true) :
    startBelow root (packagePath package) = [] := if_pos h

theorem startBelow_of_relative (h : (packagePath package).isAbsolute = false) :
    startBelow root (packagePath package) = root := if_neg (by simp [h])

theorem home_nil (root : Location) : home root [] = root :=
  (congrArg (· ++ _) (startBelow_of_relative rfl)).trans (List.append_nil root)

/-! ### Where the steps for a package lead -/

theorem eq_home_of_leadsTo_typesDirectory (hroot : tree.LeadsTo output root)
    (h : tree.LeadsTo (typesDirectory output package) location) : location = home root package :=
  hroot.eq_of_join (fun _ => isPlain_of_mem_names) h

theorem eq_home_of_leadsTo_moduleDirectory (hroot : tree.LeadsTo output root)
    (h : tree.LeadsTo (moduleDirectory output package) location) :
    location = home root package := by
  unfold moduleDirectory at h
  split at h
  · rename_i hnil
    rw [hnil, home_nil]
    exact Except.ok.inj (h.symm.trans hroot)
  · exact eq_home_of_leadsTo_typesDirectory hroot h

theorem eq_home_of_locate_typesFile (hroot : tree.LeadsTo output root)
    (h : tree.locate (typesFile output package) = .ok location) :
    location = home root package ++ ["types.rs".toList] := by
  obtain ⟨above, habove, rfl⟩ := exists_leadsTo_of_locate_join isPlain_typesName h
  rw [eq_home_of_leadsTo_typesDirectory hroot habove]

theorem eq_home_of_locate_moduleFile (hroot : tree.LeadsTo output root)
    (h : tree.locate (moduleFile output package) = .ok location) :
    location = home root package ++ ["mod.rs".toList] := by
  obtain ⟨above, habove, rfl⟩ := exists_leadsTo_of_locate_join isPlain_moduleName h
  rw [eq_home_of_leadsTo_moduleDirectory hroot habove]

theorem touches_of_onWay_typesDirectory (hroot : tree.LeadsTo output root)
    (h : tree.OnWay (typesDirectory output package) location) :
    Touches tree output root package location := by
  refine (OnWay.of_join hroot (fun _ => isPlain_of_mem_names) h).imp_right ?_
  rintro ⟨parts, hlead, rfl⟩
  cases habsolute : (packagePath package).isAbsolute with
  | true =>
    rw [home, startBelow_of_isAbsolute habsolute]
    exact .inr ⟨rfl, (List.dropLast_prefix parts).trans hlead⟩
  | false =>
    rw [startBelow_of_relative habsolute]
    exact .inl (List.prefix_append root parts)

theorem touches_of_onWay_moduleDirectory (hroot : tree.LeadsTo output root)
    (h : tree.OnWay (moduleDirectory output package) location) :
    Touches tree output root package location := by
  unfold moduleDirectory at h
  split at h
  · exact .inl h
  · exact touches_of_onWay_typesDirectory hroot h

theorem touches_home_append (tree : FileTree) (output : Path) (root : Location)
    (package name : Text) : Touches tree output root package (home root package ++ [name]) := by
  cases habsolute : (packagePath package).isAbsolute with
  | true =>
    refine .inr (.inr ⟨habsolute, [], ?_⟩)
    rw [List.append_nil, List.dropLast_concat]
  | false =>
    rw [home, startBelow_of_relative habsolute, List.append_assoc]
    exact .inr (.inl (List.prefix_append root _))

/-! ### Packages above listed ones -/

theorem packageOf_append (hparts : parts ≠ []) (hmore : more ≠ []) :
    packageOf (parts ++ more) = packageOf parts ++ '.' :: packageOf more := by
  induction parts with
  | nil => exact absurd rfl hparts
  | cons part parts ih =>
    unfold packageOf at ih ⊢
    cases parts with
    | nil =>
      obtain ⟨next, more, rfl⟩ := List.exists_cons_of_ne_nil hmore
      simp [List.intercalate_cons_cons]
    | cons next parts =>
      have hrest := ih (List.cons_ne_nil next parts)
      rw [List.cons_append] at hrest ⊢
      rw [List.cons_append, List.intercalate_cons_cons, hrest, List.intercalate_cons_cons]
      simp only [List.append_assoc]

theorem packagePath_append_dot (package rest : Text) :
    packagePath (package ++ '.' :: rest) = packagePath package ++ '/' :: packagePath rest := by
  simp [packagePath]

/-- A package above another one has its directory above that one's. -/
theorem home_prefix_of_append_dot (root : Location) (h : package ≠ []) (rest : Text) :
    (packagePath (package ++ '.' :: rest)).isAbsolute = (packagePath package).isAbsolute ∧
      home root package <+: home root (package ++ '.' :: rest) := by
  have hne : packagePath package ≠ [] := by simpa [packagePath] using h
  have habsolute : (packagePath (package ++ '.' :: rest)).isAbsolute =
      (packagePath package).isAbsolute := by
    rw [packagePath_append_dot, Path.isAbsolute_append_of_ne_nil hne]
  refine ⟨habsolute, ?_⟩
  unfold home startBelow
  rw [habsolute, packagePath_append_dot, Path.names_append_slash, ← List.append_assoc]
  exact List.prefix_append _ _

/-- What the steps for a member of the tree touch, those for a listed package may touch. -/
theorem exists_touches_of_mem_members (hmember : member ∈ members packages)
    (h : Touches tree output root member location) :
    ∃ package ∈ packages, Touches tree output root package location := by
  obtain ⟨parts, ⟨package, hpackage, more, hsplit⟩, rfl⟩ := mem_members.1 hmember
  refine ⟨package, hpackage, h.imp_right (Or.imp_right ?_)⟩
  rintro ⟨habsolute, hlead⟩
  rw [← packageOf_split package, ← hsplit]
  have hne : packageOf parts ≠ [] := by
    intro hnil
    rw [hnil] at habsolute
    cases habsolute
  have hparts : parts ≠ [] := fun hnil => hne (hnil ▸ rfl)
  by_cases hmore : more = []
  · rw [hmore, List.append_nil]
    exact ⟨habsolute, hlead⟩
  · rw [packageOf_append hparts hmore]
    obtain ⟨hsame, hhome⟩ := home_prefix_of_append_dot root hne (packageOf more)
    exact ⟨hsame.trans habsolute, hlead.trans hhome⟩

/-! ### Packages with good names -/

theorem home_of_isPart (hparts : ∀ part ∈ parts, IsPart part) :
    home root (packageOf parts) = root ++ parts := by
  rw [home, startBelow_of_relative (isAbsolute_packagePath hparts), packagePath_packageOf hparts,
    Path.names_intercalate fun part hpart => (hparts part hpart).isName]

theorem home_inj (h : WellNamed packages) (hpackage : package ∈ packages)
    (hother : other ∈ packages) (hhome : home root package = home root other) :
    package = other := by
  rw [← packageOf_split package, ← packageOf_split other, home_of_isPart (h.isPart hpackage),
    home_of_isPart (h.isPart hother)] at hhome
  rw [← packageOf_split package, List.append_cancel_left hhome, packageOf_split]

theorem isAbsolute_of_wellNamed (h : WellNamed packages) (hpackage : package ∈ packages) :
    (packagePath package).isAbsolute = false := by
  rw [← packageOf_split package]
  exact isAbsolute_packagePath (h.isPart hpackage)

end EnumWire.Command.Codegen
