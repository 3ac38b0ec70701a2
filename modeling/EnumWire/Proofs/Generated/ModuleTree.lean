import EnumWire.Generated.ModuleTree
import EnumWire.Proofs.Printer.Lines
import EnumWire.Proofs.Text.Order
import EnumWire.Proofs.Text.Pieces

/-! # The tree of packages

A package goes by its parts. There is a file for each package that is listed or above a listed one,
part by part, and it declares the modules right below, in the order of their bytes, and the types of
a listed package. Only which packages are listed counts. -/
namespace EnumWire.ModuleTree

/-- The package with some parts; the root of the tree has none. -/
def packageOf (parts : List Text) : Text := ['.'].intercalate parts

/-- A text that a package may have for a part. -/
structure IsPart (part : Text) : Prop where
  ne_nil : part ≠ []
  dot_not_mem : '.' ∉ part
  slash_not_mem : '/' ∉ part

/-- The parts of the listed packages are not empty and hold no slash. -/
def WellNamed (packages : List Text) : Prop :=
  ∀ package ∈ packages, ∀ part ∈ Text.split '.' package, part ≠ [] ∧ '/' ∉ part

/-- Some parts lead to a listed package or to one above it. -/
def IsAbove (packages : List Text) (parts : List Text) : Prop :=
  ∃ package ∈ packages, parts <+: Text.split '.' package

/-- The line that declares a module. -/
def lineOf (name : Text) : Text := "pub mod " ++ name ++ ";"

/-- The text of a file that declares some modules, and below them the types of the package. -/
def sourceOf (children : List Text) (listed : Bool) : Text :=
  Text.lines (children.map lineOf) ++
  if listed then
    (if children = [] then [] else Text.lines [""]) ++
      Text.lines ["pub mod types;", "pub use types::*;"]
  else []

/-- The modules that the file of a package declares are those right below it, in the order of their
bytes, and it has the types of a listed package. -/
structure Describes (packages parts children : List Text) (t : Text) : Prop where
  ascending : children.Pairwise fun child other => Text.utf8 child < Text.utf8 other
  mem_iff : ∀ child, child ∈ children ↔ IsAbove packages (parts ++ [child])
  text_eq : t = sourceOf children (packageOf parts ∈ packages)

/-- A line of a text declares a module. -/
def Declares (t name : Text) : Prop :=
  ∃ before after, t = Text.lines before ++ (Text.lines [lineOf name] ++ after)

variable {packages others parts modules : List Text} {package child t : Text}

/-! ### Packages and parts -/

theorem packageOf_split (package : Text) : packageOf (Text.split '.' package) = package :=
  Text.intercalate_split '.' package

theorem split_packageOf (hne : parts ≠ []) (hparts : ∀ part ∈ parts, IsPart part) :
    Text.split '.' (packageOf parts) = parts :=
  Text.split_intercalate hne fun part hpart => (hparts part hpart).dot_not_mem

theorem packageOf_eq_nil_iff (hparts : ∀ part ∈ parts, IsPart part) :
    packageOf parts = [] ↔ parts = [] := by
  refine ⟨fun h => by_contra fun hne => ?_, fun h => h ▸ rfl⟩
  have hsplit := split_packageOf hne hparts
  rw [h] at hsplit
  exact (hparts [] (hsplit ▸ List.mem_cons_self)).ne_nil rfl

theorem packageOf_inj (hparts : ∀ part ∈ parts, IsPart part)
    (hothers : ∀ part ∈ others, IsPart part) (h : packageOf parts = packageOf others) : parts = others := by
  by_cases hne : parts = []
  · rw [hne]
    exact ((packageOf_eq_nil_iff hothers).1 (h ▸ (packageOf_eq_nil_iff hparts).2 hne)).symm
  · have hothersNe : others ≠ [] := fun hnil =>
      hne ((packageOf_eq_nil_iff hparts).1 (h.trans ((packageOf_eq_nil_iff hothers).2 hnil)))
    rw [← split_packageOf hne hparts, h, split_packageOf hothersNe hothers]

theorem WellNamed.isPart (h : WellNamed packages) (hpackage : package ∈ packages) :
    ∀ part ∈ Text.split '.' package, IsPart part := fun part hpart =>
  ⟨(h package hpackage part hpart).1, Text.sep_not_mem_of_mem_split hpart,
    (h package hpackage part hpart).2⟩

theorem IsAbove.isPart (habove : IsAbove packages parts) (h : WellNamed packages) :
    ∀ part ∈ parts, IsPart part := by
  obtain ⟨package, hpackage, hlead⟩ := habove
  exact fun part hpart => h.isPart hpackage part (hlead.mem hpart)

theorem isAbove_split (h : package ∈ packages) : IsAbove packages (Text.split '.' package) :=
  ⟨package, h, List.prefix_rfl⟩

theorem IsAbove.of_append {below : List Text} (h : IsAbove packages (parts ++ below)) :
    IsAbove packages parts := by
  obtain ⟨package, hpackage, hlead⟩ := h
  exact ⟨package, hpackage, (List.prefix_append parts below).trans hlead⟩

/-! ### Files and what they declare -/

theorem mem_linksBelow {above : List Text} {link : Link} :
    link ∈ linksBelow above parts ↔
      ∃ before after, parts = before ++ link.child :: after ∧
        link.parent = packageOf (above ++ before) := by
  induction parts generalizing above with
  | nil => simp [linksBelow]
  | cons part parts ih =>
    rw [linksBelow, List.mem_cons, ih]
    constructor
    · rintro (rfl | ⟨before, after, rfl, hparent⟩)
      · exact ⟨[], parts, rfl, by rw [List.append_nil]; rfl⟩
      · refine ⟨part :: before, after, rfl, ?_⟩
        rw [hparent, List.append_assoc, List.singleton_append]
    · rintro ⟨before, after, hparts, hparent⟩
      cases before with
      | nil =>
        obtain ⟨rfl, rfl⟩ := List.cons_eq_cons.1 hparts
        rw [List.append_nil] at hparent
        exact .inl (congrArg (Link.mk · link.child) hparent)
      | cons other before =>
        obtain ⟨rfl, rfl⟩ := List.cons_eq_cons.1 hparts
        refine .inr ⟨before, after, rfl, ?_⟩
        rw [hparent, List.append_assoc, List.singleton_append]

theorem mem_links {link : Link} :
    link ∈ packages.flatMap links ↔
      ∃ above, IsAbove packages (above ++ [link.child]) ∧ link.parent = packageOf above := by
  simp only [List.mem_flatMap, links, mem_linksBelow, List.nil_append]
  constructor
  · rintro ⟨package, hpackage, above, below, hsplit, hparent⟩
    refine ⟨above, ⟨package, hpackage, below, ?_⟩, hparent⟩
    rw [hsplit, List.append_assoc, List.singleton_append]
  · rintro ⟨above, ⟨package, hpackage, below, hsplit⟩, hparent⟩
    refine ⟨package, hpackage, above, below, ?_, hparent⟩
    rw [← hsplit, List.append_assoc, List.singleton_append]

theorem mem_children (h : WellNamed packages) (hparts : ∀ part ∈ parts, IsPart part) :
    child ∈ children packages (packageOf parts) ↔ IsAbove packages (parts ++ [child]) := by
  simp only [children, Text.mem_ascending, List.mem_map, List.mem_filter, decide_eq_true_eq,
    mem_links]
  constructor
  · rintro ⟨link, ⟨⟨above, habove, hparent⟩, hlink⟩, rfl⟩
    have hsame := packageOf_inj (habove.of_append.isPart h) hparts (hparent.symm.trans hlink)
    exact hsame ▸ habove
  · exact fun habove => ⟨⟨packageOf parts, child⟩, ⟨⟨parts, habove, rfl⟩, rfl⟩, rfl⟩

/-- There is a file for each package that is listed or above a listed one. -/
theorem mem_members : package ∈ members packages ↔
    ∃ parts, IsAbove packages parts ∧ package = packageOf parts := by
  simp only [members, Text.mem_ascending, List.mem_append, List.mem_map, mem_links]
  constructor
  · rintro (⟨link, ⟨above, habove, hparent⟩, rfl⟩ | hpackage)
    · exact ⟨above, habove.of_append, hparent⟩
    · exact ⟨_, isAbove_split hpackage, (packageOf_split package).symm⟩
  · rintro ⟨parts, ⟨other, hother, below, hsplit⟩, rfl⟩
    cases below with
    | nil =>
      rw [List.append_nil] at hsplit
      rw [hsplit, packageOf_split]
      exact .inr hother
    | cons child below =>
      refine .inl ⟨⟨packageOf parts, child⟩, ⟨parts, ⟨other, hother, below, ?_⟩, rfl⟩, rfl⟩
      rw [← hsplit, List.append_assoc, List.singleton_append]

theorem declaration_ne_nil (child : Text) : declaration child ≠ [] :=
  List.append_ne_nil_of_right_ne_nil _ (by decide)

theorem lineEnd_eq : (";\n" : Text) = (";" : Text) ++ ("\n" : Text) := by decide

theorem declaration_eq (child : Text) : declaration child = lineOf child ++ ("\n" : Text) :=
  (congrArg (_ ++ ·) lineEnd_eq).trans (List.append_assoc _ _ _).symm

theorem flatMap_declaration (modules : List Text) :
    modules.flatMap declaration = Text.lines (modules.map lineOf) := by
  rw [Text.lines, List.flatMap_map]
  exact List.flatMap_congr fun child _ => declaration_eq child

theorem text_eq_sourceOf (packages : List Text) (package : Text) :
    text packages package = sourceOf (children packages package) (package ∈ packages) := by
  have hnil : (children packages package).flatMap declaration = [] ↔
      children packages package = [] := by
    rw [List.flatMap_eq_nil_iff, List.eq_nil_iff_forall_not_mem]
    exact forall_congr' fun child =>
      imp_congr_right fun _ => iff_of_false (declaration_ne_nil child) id
  unfold text sourceOf
  simp only [hnil, List.contains_iff_mem, decide_eq_true_eq, ← flatMap_declaration]
  split
  · rw [List.append_assoc]
    rfl
  · rw [List.append_nil]

theorem describes_text (h : WellNamed packages) (habove : IsAbove packages parts) :
    Describes packages parts (children packages (packageOf parts))
      (text packages (packageOf parts)) where
  ascending := Text.pairwise_ascending _
  mem_iff _ := mem_children h (habove.isPart h)
  text_eq := text_eq_sourceOf packages (packageOf parts)

theorem Describes.declares (h : Describes packages parts modules t) (hchild : child ∈ modules) :
    Declares t child := by
  obtain ⟨before, after, rfl⟩ := List.append_of_mem hchild
  have htext := h.text_eq
  rw [sourceOf, List.map_append, List.map_cons, ← List.singleton_append, Text.lines_append,
    Text.lines_append, List.append_assoc, List.append_assoc] at htext
  exact ⟨_, _, htext⟩

theorem lineOf_types : lineOf "types" = "pub mod types;" := by decide

theorem Describes.declares_types (h : Describes packages parts modules t)
    (hlisted : packageOf parts ∈ packages) : Declares t "types" := by
  let before : List Text := modules.map lineOf ++ if modules = [] then [] else [[]]
  refine ⟨before, Text.lines ["pub use types::*;"], h.text_eq.trans ?_⟩
  rw [sourceOf, if_pos (decide_eq_true hlisted), lineOf_types, Text.lines_append, List.append_assoc]
  split <;> rfl

/-! ### Only the set of packages counts -/

theorem members_congr (h : ∀ package, package ∈ packages ↔ package ∈ others) :
    members packages = members others :=
  Text.ascending_congr fun package => by
    simp only [List.mem_append, List.mem_map, List.mem_flatMap, h]

theorem children_congr (h : ∀ package, package ∈ packages ↔ package ∈ others) (package : Text) :
    children packages package = children others package :=
  Text.ascending_congr fun child => by
    simp only [List.mem_map, List.mem_filter, List.mem_flatMap, h]

theorem files_congr (h : ∀ package, package ∈ packages ↔ package ∈ others) :
    files packages = files others := by
  unfold files
  rw [members_congr h]
  refine List.map_congr_left fun package _ => ?_
  rw [text_eq_sourceOf, text_eq_sourceOf, children_congr h, decide_eq_decide.2 (h package)]

end EnumWire.ModuleTree
