import EnumWire.Proofs.Generated.ModuleTree

/-! # The names of declared modules

Read off line by line, a file declares the modules right below its package, each once, and the types
of a listed package. A package `types` below a listed one makes it declare that name twice. -/
namespace EnumWire.ModuleTree

/-- The module that a line declares. -/
def declaredIn? (line : Text) : Option Text :=
  if line.take 8 = "pub mod " ∧ line.getLast? = some ';' then some (line.drop 8).dropLast else none

/-- The modules that the lines of a text declare. -/
def declared (t : Text) : List Text := (Text.split '\n' t).filterMap declaredIn?

/-- The parts of the listed packages stand in one line each. -/
def OneLined (packages : List Text) : Prop :=
  ∀ package ∈ packages, ∀ part ∈ Text.split '.' package, '\n' ∉ part

/-- A listed package is above one with `types` for its next part. -/
def Clashes (packages parts : List Text) : Prop :=
  packageOf parts ∈ packages ∧ IsAbove packages (parts ++ ["types".toList])

variable {packages parts modules : List Text} {name package : Text}

/-! ### Lines -/

theorem length_lineStart : ("pub mod ".toList : Text).length = 8 := by decide

theorem semicolon_eq : (";".toList : Text) = [';'] := by decide

theorem lineOf_eq (name : Text) : lineOf name = "pub mod ".toList ++ (name ++ [';']) := by
  unfold lineOf
  exact (congrArg (_ ++ ·) semicolon_eq).trans (List.append_assoc _ _ _)

theorem declaredIn?_lineOf (name : Text) : declaredIn? (lineOf name) = some name := by
  have hstart : (lineOf name).take 8 = "pub mod ".toList := by
    rw [lineOf_eq, List.take_left' length_lineStart]
  have hrest : (lineOf name).drop 8 = name ++ [';'] := by
    rw [lineOf_eq, List.drop_left' length_lineStart]
  have hend : (lineOf name).getLast? = some ';' := by
    rw [lineOf_eq, ← List.append_assoc, List.getLast?_concat]
  rw [declaredIn?, if_pos ⟨hstart, hend⟩, hrest, List.dropLast_concat]

theorem newline_not_mem_lineOf (h : '\n' ∉ name) : '\n' ∉ lineOf name := by
  rw [lineOf_eq]
  simp [h]

theorem filterMap_declaredIn? (names : List Text) :
    (names.map lineOf).filterMap declaredIn? = names := by
  rw [List.filterMap_map]
  exact (List.filterMap_congr fun name _ => declaredIn?_lineOf name).trans List.filterMap_some

/-! ### Files -/

theorem declared_sourceOf (h : ∀ child ∈ modules, '\n' ∉ child) (listed : Bool) :
    declared (sourceOf modules listed) = modules ++ if listed then ["types".toList] else [] := by
  have hlines : ∀ line ∈ modules.map lineOf, '\n' ∉ line := by
    intro line hline
    obtain ⟨child, hchild, rfl⟩ := List.mem_map.1 hline
    exact newline_not_mem_lineOf (h child hchild)
  rw [declared, sourceOf, Text.split_lines hlines, List.filterMap_append, filterMap_declaredIn?,
    List.append_cancel_left_eq]
  cases listed with
  | false => rfl
  | true =>
    rw [if_pos rfl, if_pos rfl]
    split <;> decide +kernel

theorem OneLined.newline_not_mem (h : OneLined packages) (habove : IsAbove packages parts) :
    ∀ part ∈ parts, '\n' ∉ part := by
  obtain ⟨package, hpackage, hlead⟩ := habove
  exact fun part hpart => h package hpackage part (hlead.mem hpart)

theorem declared_text (h : WellNamed packages) (hlines : OneLined packages)
    (habove : IsAbove packages parts) : declared (text packages (packageOf parts)) =
      children packages (packageOf parts) ++
        if packageOf parts ∈ packages then ["types".toList] else [] := by
  have hchildren : ∀ child ∈ children packages (packageOf parts), '\n' ∉ child := by
    intro child hchild
    have hbelow := (mem_children h (habove.isPart h)).1 hchild
    exact hlines.newline_not_mem hbelow child (List.mem_append_right _ List.mem_cons_self)
  rw [text_eq_sourceOf, declared_sourceOf hchildren]
  simp only [decide_eq_true_eq]

/-- A declared module is a package below, or the types of the package. -/
theorem mem_declared_text (h : WellNamed packages) (hlines : OneLined packages)
    (habove : IsAbove packages parts) : name ∈ declared (text packages (packageOf parts)) ↔
      IsAbove packages (parts ++ [name]) ∨ name = "types".toList ∧ packageOf parts ∈ packages := by
  rw [declared_text h hlines habove, List.mem_append, mem_children h (habove.isPart h)]
  by_cases hlisted : packageOf parts ∈ packages
  · rw [if_pos hlisted, List.mem_singleton, and_iff_left hlisted]
  · rw [if_neg hlisted]
    exact or_congr_right (iff_of_false List.not_mem_nil fun hboth => hlisted hboth.2)

/-- Each name is declared once, unless `types` is both a package and the types of the one above. -/
theorem nodup_declared_text_iff (h : WellNamed packages) (hlines : OneLined packages)
    (habove : IsAbove packages parts) :
    (declared (text packages (packageOf parts))).Nodup ↔ ¬Clashes packages parts := by
  have hchildren : (children packages (packageOf parts)).Nodup :=
    Text.nodup_of_ascending (Text.pairwise_ascending _)
  rw [declared_text h hlines habove, Clashes, ← mem_children h (habove.isPart h)]
  by_cases hlisted : packageOf parts ∈ packages
  · rw [if_pos hlisted, and_iff_right hlisted, List.nodup_append]
    constructor
    · exact fun hnodup hmem => hnodup.2.2 _ hmem _ List.mem_cons_self rfl
    · intro hfree
      refine ⟨hchildren, List.pairwise_singleton _ _, fun child hchild other hother heq => hfree ?_⟩
      exact List.mem_singleton.1 hother ▸ heq ▸ hchild
  · rw [if_neg hlisted, List.append_nil]
    exact iff_of_true hchildren fun hboth => hlisted hboth.1

end EnumWire.ModuleTree
