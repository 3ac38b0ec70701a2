import EnumWire.Proofs.Descriptor.Canonical
import EnumWire.Proofs.Generated.Constants
import EnumWire.Proofs.Text.Decimal

/-! # The values of generated constants

The source of an enumeration declares one constant for each value, under different names if the
values have such. Literals come before names, so every constant has its number, and an alias has it
from a constant that carries the number itself. -/
namespace EnumWire.Constants

variable {params : Params} {enum : EnumType}

/-! ### Going through the declarations -/

/-- The initializer of a declaration has a number where the constants above are known. -/
def Declaration.StandsFor (declaration : Declaration) (style : EnumStyle)
    (known : List (Text × Int32)) (number : Int32) : Prop :=
  (Initializer.ofText? style declaration.value).bind (Initializer.number? known) = some number

variable {style : EnumStyle} {known more : List (Text × Int32)} {declaration : Declaration}
  {number : Int32}

theorem number?_append {initializer : Initializer} (h : initializer.number? known = some number) :
    initializer.number? (known ++ more) = some number := by
  cases initializer with
  | literal n => exact h
  | constant name =>
    rw [Initializer.number?] at h ⊢
    rw [List.lookup_append, h, Option.some_or]

theorem Declaration.StandsFor.append (h : declaration.StandsFor style known number) :
    declaration.StandsFor style (known ++ more) number := by
  unfold StandsFor at h ⊢
  obtain ⟨initializer, hinitializer, hnumber⟩ := Option.bind_eq_some_iff.1 h
  rw [hinitializer]
  exact number?_append hnumber

theorem lookup_eq_none_of_notMem {name : Text} (h : name ∉ known.map Prod.fst) :
    known.lookup name = none := by
  rw [List.lookup_eq_none_iff]
  intro entry hentry
  simpa using fun heq => h (List.mem_map.2 ⟨entry, hentry, heq.symm⟩)

theorem declare_of_standsFor (hnew : declaration.name ∉ known.map Prod.fst)
    (h : declaration.StandsFor style known number) :
    declare style known declaration = some (known ++ [(declaration.name, number)]) := by
  obtain ⟨initializer, hinitializer, hnumber⟩ := Option.bind_eq_some_iff.1 h
  rw [declare, lookup_eq_none_of_notMem hnew, hinitializer]
  simp only [Option.isSome_none, Bool.false_eq_true, if_false, Option.bind_some, hnumber,
    Option.map_some]

/-- Declarations under new names, each with a number from what is known before all of them. -/
theorem foldlM_declare {α : Type} {items : List α} {declared : α → Declaration} {value : α → Int32}
    (hnames : (known.map Prod.fst ++ items.map fun item => (declared item).name).Nodup)
    (h : ∀ item ∈ items, (declared item).StandsFor style known (value item)) :
    (items.map declared).foldlM (declare style) known =
      some (known ++ items.map fun item => ((declared item).name, value item)) := by
  induction items generalizing known with
  | nil => simp
  | cons item items ih =>
    rw [List.forall_mem_cons] at h
    rw [List.map_cons, List.nodup_append] at hnames
    have hnew : (declared item).name ∉ known.map Prod.fst := fun hmem =>
      hnames.2.2 _ hmem _ List.mem_cons_self rfl
    rw [List.map_cons, List.foldlM_cons, declare_of_standsFor hnew h.1]
    change List.foldlM (declare style) (known ++ [((declared item).name, value item)]) _ = _
    rw [ih ?_ fun other hother => (h.2 other hother).append]
    · rw [List.map_cons, List.append_assoc, List.singleton_append]
    · rw [List.map_append, List.append_assoc, List.map_singleton, List.singleton_append,
        List.nodup_append]
      exact hnames

theorem lookup_map_of_nodup {α : Type} {items : List α} {key : α → Text} {value : α → Int32}
    (hkeys : (items.map key).Nodup) {item : α} (hitem : item ∈ items) :
    (items.map fun item => (key item, value item)).lookup (key item) = some (value item) := by
  induction items with
  | nil => cases hitem
  | cons head items ih =>
    rw [List.map_cons, List.nodup_cons] at hkeys
    rw [List.map_cons, List.lookup_cons]
    rcases List.mem_cons.1 hitem with rfl | htail
    · rw [beq_self_eq_true]
    · have hne : key item ≠ key head := fun heq => hkeys.1 (heq ▸ List.mem_map_of_mem htail)
      rw [beq_false_of_ne hne]
      exact ih hkeys.2 htail

theorem standsFor_canonical (params : Params) (value : EnumValue) :
    (canonicalDeclaration params value).StandsFor style known value.number := by
  unfold Declaration.StandsFor canonicalDeclaration Initializer.ofText?
  simp [Text.toInt?_ofInt, Initializer.number?]

theorem siblingRef_eq (params : Params) (value : EnumValue) :
    siblingRef params value = reference params.enumStyle (Names.constant params value) := by
  unfold siblingRef reference Names.constantRef
  cases params.enumStyle <;> rfl

/-- No name is taken for a literal: it has a colon before it, or an underscore in it. -/
theorem ofText?_reference (params : Params) (value : EnumValue) :
    Initializer.ofText? params.enumStyle
      (reference params.enumStyle (Names.constant params value)) =
      some (.constant (Names.constant params value)) := by
  unfold Initializer.ofText? reference
  cases hstyle : params.enumStyle with
  | shell =>
    have hcolon : ':' ∈ "Self::".toList ++ Names.constant params value :=
      List.mem_append_left _ (by decide)
    rw [Text.toInt?_eq_none hcolon (by decide) (by decide)]
    simp only [Text.isPrefixOf?_append, Option.map_some]
  | flat =>
    have hunderscore : '_' ∈ Names.constant params value := by
      rw [Names.constant, hstyle]
      simp
    rw [Text.toInt?_eq_none hunderscore (by decide) (by decide)]

theorem standsFor_alias {entry : Alias}
    (h : known.lookup (Names.constant params entry.canonical) = some number) :
    (aliasDeclaration params entry).StandsFor params.enumStyle known number := by
  unfold Declaration.StandsFor aliasDeclaration
  rw [siblingRef_eq, ofText?_reference]
  exact h

/-- The values in the order in which their constants are declared. -/
def declaredValues (enum : EnumType) : List EnumValue :=
  (Partition.ofEnum enum).canonicalValues ++ (Partition.ofEnum enum).aliases.map Alias.value

/-- The constant of a value with its number. -/
def numbered (params : Params) (value : EnumValue) : Text × Int32 :=
  (Names.constant params value, value.number)

/-- Canonical values bring their numbers; aliases find them there, behind what is known already. -/
theorem foldlM_declarations
    (hnames : (known.map Prod.fst ++ enum.values.map (Names.constant params)).Nodup) :
    (declarations params enum).foldlM (declare params.enumStyle) known =
      some (known ++ (declaredValues enum).map (numbered params)) := by
  have hperm := ((Partition.ofEnum_perm enum).map (Names.constant params)).append_left
    (known.map Prod.fst)
  have hdeclared := hperm.nodup_iff.2 hnames
  rw [List.map_append, List.map_map, ← List.append_assoc] at hdeclared
  have hcanonical := (List.nodup_append.1 hdeclared).1
  have hliterals :
      ((Partition.ofEnum enum).canonicalValues.map (canonicalDeclaration params)).foldlM
        (declare params.enumStyle) known =
      some (known ++ (Partition.ofEnum enum).canonicalValues.map (numbered params)) :=
    foldlM_declare hcanonical fun value _ => standsFor_canonical params value
  have hreferences : ((Partition.ofEnum enum).aliases.map (aliasDeclaration params)).foldlM
      (declare params.enumStyle)
        (known ++ (Partition.ofEnum enum).canonicalValues.map (numbered params)) =
      some (known ++ (Partition.ofEnum enum).canonicalValues.map (numbered params) ++
        (Partition.ofEnum enum).aliases.map fun entry => numbered params entry.value) := by
    refine foldlM_declare (by rwa [List.map_append, List.map_map]) fun entry hentry =>
      standsFor_alias ?_
    have hmem := Partition.canonical_mem hentry
    have hnew : Names.constant params entry.canonical ∉ known.map Prod.fst := fun hknown =>
      (List.nodup_append.1 hcanonical).2.2 _ hknown _ (List.mem_map_of_mem hmem) rfl
    have hlookup : ((Partition.ofEnum enum).canonicalValues.map (numbered params)).lookup
        (Names.constant params entry.canonical) = some entry.canonical.number :=
      lookup_map_of_nodup (List.nodup_append.1 hcanonical).2.1 hmem
    rw [List.lookup_append, lookup_eq_none_of_notMem hnew, Option.none_or, hlookup,
      Partition.canonical_number hentry]
  rw [declarations, List.foldlM_append, hliterals, declaredValues, List.map_append, List.map_map,
    ← List.append_assoc]
  exact hreferences

theorem evaluate_declarations (hnames : (enum.values.map (Names.constant params)).Nodup) :
    evaluate params.enumStyle (declarations params enum) =
      some ((declaredValues enum).map (numbered params)) :=
  foldlM_declarations hnames

theorem map_name_declarations (params : Params) (enum : EnumType) :
    (declarations params enum).map Declaration.name =
      (declaredValues enum).map (Names.constant params) := by
  simp only [declarations, declaredValues, List.map_append, List.map_map]
  rfl

theorem lookup_declaredValues (hnames : (enum.values.map (Names.constant params)).Nodup)
    {value : EnumValue} (hmem : value ∈ enum.values) :
    ((declaredValues enum).map (numbered params)).lookup (Names.constant params value) =
      some value.number := by
  have hperm := Partition.ofEnum_perm enum
  exact lookup_map_of_nodup ((hperm.map (Names.constant params)).nodup_iff.2 hnames)
    (hperm.mem_iff.2 hmem)

/-! ### Reading the declarations back -/

theorem dropWhile_indentation (depth : Nat) {c : Char} (h : c ≠ ' ') (rest : Text) :
    (Printer.indentation depth ++ c :: rest).dropWhile (fun c => c = ' ') = c :: rest := by
  have hblanks : (Printer.indentation depth).dropWhile (fun c => c = ' ') = [] := by
    simp [Printer.indentation]
  rw [List.dropWhile_append, hblanks, List.isEmpty_nil, if_pos rfl,
    List.dropWhile_cons_of_neg (by simpa using h)]

theorem line_eq (declaration : Declaration) :
    declaration.line = "pub const ".toList ++ (declaration.name ++
      ':' :: (" i32 = ".toList ++ (declaration.value ++ [';']))) := by
  have hcolon : ": i32 = ".toList = ':' :: " i32 = ".toList := by decide
  have hend : ";".toList = [';'] := by decide
  unfold Declaration.line
  rw [hcolon, hend, List.append_assoc, List.append_assoc, List.append_assoc, List.cons_append]

theorem ofLine?_indentedLine (depth : Nat) (h : ':' ∉ declaration.name) :
    Declaration.ofLine? (Printer.indentedLine depth declaration.line) = some declaration := by
  have hne : declaration.line ≠ [] := by
    rw [line_eq]
    simp
  have hblanks : (Printer.indentedLine depth declaration.line).dropWhile (fun c => c = ' ') =
      declaration.line := by
    rw [Printer.indentedLine, if_neg hne, line_eq]
    exact dropWhile_indentation depth (by decide) _
  rw [Declaration.ofLine?, hblanks, line_eq, Text.isPrefixOf?_append, Option.bind_some,
    Text.splitFirst_append_cons h, Option.bind_some]
  simp only [Text.isPrefixOf?_append, Option.bind_some, List.getLast?_concat, List.dropLast_concat,
    if_true]

/-- A name that stands on one line and does not end before its type. -/
def IsPlain (name : Text) : Prop := ':' ∉ name ∧ '\n' ∉ name

theorem newline_not_mem_reference {name : Text} (h : '\n' ∉ name) :
    '\n' ∉ reference style name := by
  unfold reference
  cases style with
  | shell =>
    dsimp only
    rw [List.mem_append, not_or]
    exact ⟨by decide, h⟩
  | flat => exact h

theorem newline_not_mem_line (hname : '\n' ∉ declaration.name) (hvalue : '\n' ∉ declaration.value) :
    '\n' ∉ declaration.line := by
  have hstart : '\n' ∉ "pub const ".toList := by decide
  have htype : '\n' ∉ ": i32 = ".toList := by decide
  have hend : '\n' ∉ ";".toList := by decide
  unfold Declaration.line
  iterate 4 rw [List.mem_append, not_or]
  exact ⟨⟨⟨⟨hstart, hname⟩, htype⟩, hvalue⟩, hend⟩

theorem ofLine?_openingLines (params : Params) (enum : EnumType) :
    (openingLines params enum).filterMap Declaration.ofLine? = [] := by
  rw [List.filterMap_eq_nil_iff]
  unfold openingLines
  cases params.enumStyle with
  | shell =>
    simp only [List.forall_mem_cons]
    repeat rw [String.toList_ofList]
    exact ⟨rfl, rfl, rfl, rfl, rfl, by simp⟩
  | flat =>
    simp only [List.forall_mem_cons]
    repeat rw [String.toList_ofList]
    exact ⟨rfl, by simp⟩

theorem ofLine?_closingLines (style : EnumStyle) :
    (closingLines style).filterMap Declaration.ofLine? = [] := by
  cases style <;> rfl

theorem newline_not_mem_openingLines (h : '\n' ∉ Names.enumType enum) :
    ∀ line ∈ openingLines params enum, '\n' ∉ line := by
  unfold openingLines
  cases params.enumStyle <;> simp [h]

theorem newline_not_mem_closingLines (style : EnumStyle) :
    ∀ line ∈ closingLines style, '\n' ∉ line := by
  cases style <;> decide

/-- The lines between the breaks of an enumeration; nothing follows the last break. -/
theorem split_enclosedText {lines : List Text} (henum : '\n' ∉ Names.enumType enum)
    (hlines : ∀ line ∈ lines, '\n' ∉ line) :
    Text.split '\n' (enclosedText params enum (Text.lines lines)) =
      openingLines params enum ++ (lines.map (Printer.indentedLine (depth params.enumStyle)) ++
        (closingLines params.enumStyle ++ [[]])) := by
  have hindented : ∀ line ∈ lines.map (Printer.indentedLine (depth params.enumStyle)),
      '\n' ∉ line :=
    List.forall_mem_map.2 fun line hmem =>
      Printer.newline_not_mem_indentedLine _ (hlines line hmem)
  have hclosing := Text.split_lines (newline_not_mem_closingLines params.enumStyle) []
  rw [List.append_nil] at hclosing
  rw [enclosedText, Printer.indented_lines _ hlines, List.append_assoc,
    Text.split_lines (newline_not_mem_openingLines henum), Text.split_lines hindented, hclosing]
  rfl

/-- Lines that declare nothing stand around the declarations. -/
theorem readSource_enclosedText {declared : List Declaration} (henum : '\n' ∉ Names.enumType enum)
    (hnames : ∀ declaration ∈ declared, ':' ∉ declaration.name)
    (hlines : ∀ declaration ∈ declared, '\n' ∉ declaration.line) :
    readSource (enclosedText params enum (Text.lines (declared.map Declaration.line))) =
      declared := by
  have hread : ∀ declaration ∈ declared,
      Declaration.ofLine? (Printer.indentedLine (depth params.enumStyle) declaration.line) =
        some declaration :=
    fun declaration hmem => ofLine?_indentedLine _ (hnames declaration hmem)
  have hlast : [[]].filterMap Declaration.ofLine? = [] := rfl
  rw [readSource, split_enclosedText henum (List.forall_mem_map.2 hlines), List.filterMap_append,
    List.filterMap_append, List.filterMap_append, ofLine?_openingLines, ofLine?_closingLines, hlast,
    List.nil_append, List.nil_append, List.append_nil, List.map_map, List.filterMap_map]
  exact (List.filterMap_congr hread).trans List.filterMap_some

theorem plain_of_mem_declarations
    (hnames : ∀ value ∈ enum.values, IsPlain (Names.constant params value)) :
    ∀ declaration ∈ declarations params enum,
      ':' ∉ declaration.name ∧ '\n' ∉ declaration.line := by
  have hperm := Partition.ofEnum_perm enum
  intro declaration hmem
  rcases List.mem_append.1 hmem with hliteral | hreference
  · obtain ⟨value, hvalue, rfl⟩ := List.mem_map.1 hliteral
    have hplain := hnames value (hperm.subset (List.mem_append_left _ hvalue))
    exact ⟨hplain.1, newline_not_mem_line hplain.2 (Text.not_mem_ofInt (by decide) (by decide) _)⟩
  · obtain ⟨entry, hentry, rfl⟩ := List.mem_map.1 hreference
    have hplain := hnames entry.value
      (hperm.subset (List.mem_append_right _ (List.mem_map_of_mem hentry)))
    have hcanonical := hnames entry.canonical
      (hperm.subset (List.mem_append_left _ (Partition.canonical_mem hentry)))
    refine ⟨hplain.1, newline_not_mem_line hplain.2 ?_⟩
    rw [aliasDeclaration, siblingRef_eq]
    exact newline_not_mem_reference hcanonical.2

/-! ### What an enumeration declares -/

/-- Literals for the canonical values, then names of such literals for the aliases. -/
structure Declares (params : Params) (enum : EnumType)
    (literals references : List Declaration) : Prop where
  text : (script params enum).text = .ok (enclosedText params enum
    (Text.lines ((literals ++ references).map Declaration.line)))
  name_literals : literals.map Declaration.name =
    (Partition.ofEnum enum).canonicalValues.map (Names.constant params)
  name_references : references.map Declaration.name =
    (Partition.ofEnum enum).aliases.map fun entry => Names.constant params entry.value
  one_each : ((literals ++ references).map Declaration.name).Perm
    (enum.values.map (Names.constant params))
  value_literal : ∀ literal ∈ literals, ∃ number : Int32, literal.value = Text.ofInt number.toInt
  value_reference : ∀ other ∈ references, ∃ literal ∈ literals,
    other.value = reference params.enumStyle literal.name
  /-- Every name is declared once and stands for the number of its value. -/
  evaluates : ∃ known, evaluate params.enumStyle (literals ++ references) = some known ∧
    known.map Prod.fst = (literals ++ references).map Declaration.name ∧
    ∀ value ∈ enum.values, known.lookup (Names.constant params value) = some value.number
  /-- Nothing else can be read from the text where no name has a colon or a break in it. -/
  reads : '\n' ∉ Names.enumType enum →
    (∀ value ∈ enum.values, IsPlain (Names.constant params value)) →
    readSource (enclosedText params enum
      (Text.lines ((literals ++ references).map Declaration.line))) = literals ++ references

/-- Values with names of their own have constants with their own numbers. -/
theorem exists_declares (params : Params) (enum : EnumType)
    (hnames : (enum.values.map (Names.constant params)).Nodup) :
    ∃ literals references, Declares params enum literals references := by
  refine ⟨(Partition.ofEnum enum).canonicalValues.map (canonicalDeclaration params),
    (Partition.ofEnum enum).aliases.map (aliasDeclaration params), ?_⟩
  have hname := map_name_declarations params enum
  exact {
    text := (printsLines_script params enum).text_eq
    name_literals := List.map_map
    name_references := List.map_map
    one_each := by
      rw [← declarations, hname]
      exact (Partition.ofEnum_perm enum).map _
    value_literal := by
      rw [List.forall_mem_map]
      exact fun value _ => ⟨value.number, rfl⟩
    value_reference := by
      rw [List.forall_mem_map]
      exact fun entry hentry => ⟨_, List.mem_map_of_mem (Partition.canonical_mem hentry),
        siblingRef_eq params entry.canonical⟩
    evaluates := by
      refine ⟨_, evaluate_declarations hnames, ?_, fun value => lookup_declaredValues hnames⟩
      rw [List.map_map]
      exact hname.symm
    reads := fun henum hplain => readSource_enclosedText henum
      (fun declaration hmem => (plain_of_mem_declarations hplain declaration hmem).1)
      (fun declaration hmem => (plain_of_mem_declarations hplain declaration hmem).2) }

/-- Keywords for names, and an alias of a negative number. -/
def keywordLevels : EnumType :=
  .ofDef { name := "Level", values := [{ name := "type", number := -1 },
    { name := "self", number := 0 }, { name := "crate", number := -1 }] }

theorem exists_declares_keywordLevels :
    (keywordLevels.values.map (Names.constant {})).Nodup ∧
      ∃ literals references, Declares {} keywordLevels literals references :=
  ⟨by decide +kernel, exists_declares {} keywordLevels (by decide +kernel)⟩

example : (declarations {} keywordLevels).map Declaration.line = ([
    "pub const r#type: i32 = -1;",
    "pub const self_: i32 = 0;",
    "pub const crate_: i32 = Self::r#type;"] : List String).map String.toList := by
  decide +kernel

end EnumWire.Constants
