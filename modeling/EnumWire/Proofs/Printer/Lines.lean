import EnumWire.Proofs.Printer.Expansion
import EnumWire.Proofs.Text.Pieces
import EnumWire.Proofs.Traversal

/-! # Scripts that print whole lines

A template of several lines expands line by line. A script that prints whole lines at a line start
may be nested, which indents each of its lines that is not empty by one level. -/
namespace EnumWire

/-! ### Lines of a text -/

namespace Text

variable {line : Text} {lines : List Text}

theorem lines_nil : Text.lines [] = [] := rfl

theorem lines_cons (line : Text) (rest : List Text) :
    Text.lines (line :: rest) = line ++ '\n' :: Text.lines rest := by
  rw [Text.lines, List.flatMap_cons, List.append_assoc]
  rfl

theorem lines_append (before after : List Text) :
    Text.lines (before ++ after) = Text.lines before ++ Text.lines after :=
  List.flatMap_append

theorem lines_map {α : Type} (items : List α) (line : α → Text) :
    Text.lines (items.map line) = items.flatMap fun item => Text.lines [line item] := by
  simp [Text.lines, List.flatMap_map]

theorem split_append_cons {sep : Char} {piece : Text} (h : sep ∉ piece) (rest : Text) :
    split sep (piece ++ sep :: rest) = piece :: split sep rest := by
  rw [split_append_sep, split_of_not_mem h, List.singleton_append]

theorem split_lines (h : ∀ line ∈ lines, '\n' ∉ line) (rest : Text) :
    split '\n' (Text.lines lines ++ rest) = lines ++ split '\n' rest := by
  induction lines with
  | nil => rfl
  | cons line lines ih =>
    rw [List.forall_mem_cons] at h
    rw [lines_cons, List.append_assoc, List.cons_append, split_append_cons h.1, ih h.2,
      List.cons_append]

end Text

/-! ### Templates, line by line -/

namespace Template

variable {vars : Variables} {template t u x y : Text}

/-- A text that leaves no placeholder open expands apart from what follows it. -/
theorem expandFrom_append {name : Option Text} (h : expandFrom vars template name t = .ok x)
    (other u : Text) :
    expandFrom vars other name (t ++ u) = (expandFrom vars other none u).map (x ++ ·) := by
  induction t generalizing name x with
  | nil =>
    cases name with
    | none =>
      obtain rfl := Except.ok.inj h
      exact (Traversal.map_id_eq _).symm
    | some name => cases h
  | cons c t ih =>
    rw [List.cons_append]
    cases name with
    | none =>
      rw [expandFrom] at h ⊢
      by_cases hc : c = '$'
      · rw [if_pos hc] at h ⊢
        exact ih h
      · rw [if_neg hc] at h ⊢
        obtain ⟨rest, hrest, rfl⟩ := Traversal.map_eq_ok_iff.1 h
        rw [ih hrest, Traversal.map_map_eq]
        rfl
    | some name =>
      rw [expandFrom] at h ⊢
      by_cases hc : c = '$'
      · rw [if_pos hc] at h ⊢
        split at h
        · cases h
        · obtain ⟨rest, hrest, rfl⟩ := Traversal.map_eq_ok_iff.1 h
          rw [ih hrest, Traversal.map_map_eq]
          simp only [List.append_assoc, Function.comp_def]
      · rw [if_neg hc] at h ⊢
        exact ih h

theorem expand_append (ht : expand vars t = .ok x) (hu : expand vars u = .ok y) :
    expand vars (t ++ u) = .ok (x ++ y) := by
  have hother := expandFrom_append hu (t ++ u) []
  rw [List.append_nil] at hother
  rw [expand, expandFrom_append ht, hother]
  exact congrArg (fun y => Except.ok (x ++ y)) (List.append_nil y)

/-- Each line of a template expands to a line of its own. -/
theorem expand_lines {templates texts : List Text}
    (h : List.Forall₂ (fun line text => expand vars line = .ok text) templates texts) :
    expand vars (Text.lines templates) = .ok (Text.lines texts) := by
  induction h with
  | nil => rfl
  | cons hline _ ih =>
    rw [Text.lines_cons, Text.lines_cons]
    exact expand_append hline (expand_append (t := ['\n']) rfl ih)

end Template

/-! ### Indentation -/

namespace Printer

variable {t u line : Text}

theorem indented_false_of_line (depth : Nat) (h : '\n' ∉ line) :
    indented depth false line = line := by
  induction line with
  | nil => rfl
  | cons c line ih =>
    rw [List.mem_cons, not_or] at h
    rw [indented, Bool.false_and, if_neg Bool.false_ne_true, decide_eq_false (Ne.symm h.1), ih h.2]

/-- The indentation goes before the first character of a line, where there is one. -/
theorem indented_true_of_line (depth : Nat) (h : '\n' ∉ line) (hne : line ≠ []) :
    indented depth true line = indentation depth ++ line := by
  cases line with
  | nil => exact absurd rfl hne
  | cons c line =>
    rw [List.mem_cons, not_or] at h
    rw [indented, if_pos (by simpa using Ne.symm h.1), indented_false_of_line depth h.2]

theorem endsLine_of_line (h : '\n' ∉ line) (hne : line ≠ []) (atLineStart : Bool) :
    endsLine atLineStart line = false := by
  induction line generalizing atLineStart with
  | nil => exact absurd rfl hne
  | cons c line ih =>
    rw [List.mem_cons, not_or] at h
    rw [endsLine, decide_eq_false (Ne.symm h.1)]
    cases line with
    | nil => rfl
    | cons d line => exact ih h.2 (List.cons_ne_nil d line) false

theorem newline_not_mem_indentation (depth : Nat) : '\n' ∉ indentation depth := by
  intro h
  cases List.eq_of_mem_replicate h

/-- What is before the first character of a line is indented with it. -/
theorem newline_not_mem_indented_char (depth : Nat) {c : Char} (hc : c ≠ '\n') :
    '\n' ∉ indentation depth ++ [c] := by
  rw [List.mem_append, not_or]
  exact ⟨newline_not_mem_indentation depth, by simpa using Ne.symm hc⟩

theorem indented_cons_of_start (depth : Nat) {c : Char} (hc : c ≠ '\n') (t : Text) :
    indented depth true (c :: t) = (indentation depth ++ [c]) ++ indented depth false t := by
  rw [indented, if_pos (by simpa using hc), List.append_assoc, List.singleton_append]

theorem indented_cons_of_not_start (depth : Nat) {atLineStart : Bool} {c : Char}
    (h : atLineStart = false ∨ c = '\n') (t : Text) :
    indented depth atLineStart (c :: t) = c :: indented depth (c = '\n') t := by
  rw [indented, if_neg]
  rcases h with rfl | rfl <;> simp

theorem indented_indented (m n : Nat) (atLineStart : Bool) (t : Text) :
    indented m atLineStart (indented n atLineStart t) = indented (m + n) atLineStart t := by
  induction t generalizing atLineStart with
  | nil => rfl
  | cons c t ih =>
    by_cases h : atLineStart = false ∨ c = '\n'
    · rw [indented_cons_of_not_start n h, indented_cons_of_not_start m h, ih,
        indented_cons_of_not_start (m + n) h]
    · rw [not_or, Bool.not_eq_false] at h
      obtain ⟨rfl, hc⟩ := h
      have hline := newline_not_mem_indented_char n hc
      have hne : indentation n ++ [c] ≠ [] := by simp
      rw [indented_cons_of_start n hc, indented_append, indented_true_of_line m hline hne,
        endsLine_of_line hline hne, ih, indented_cons_of_start (m + n) hc]
      simp [indentation, Nat.mul_add, ← List.append_assoc, List.replicate_append_replicate]

theorem endsLine_indented (depth : Nat) (atLineStart : Bool) (t : Text) :
    endsLine atLineStart (indented depth atLineStart t) = endsLine atLineStart t := by
  induction t generalizing atLineStart with
  | nil => rfl
  | cons c t ih =>
    by_cases h : atLineStart = false ∨ c = '\n'
    · rw [indented_cons_of_not_start depth h, endsLine, ih, endsLine]
    · rw [not_or, Bool.not_eq_false] at h
      obtain ⟨rfl, hc⟩ := h
      rw [indented_cons_of_start depth hc, endsLine_append,
        endsLine_of_line (newline_not_mem_indented_char depth hc) (by simp), ih, endsLine,
        decide_eq_false hc]

theorem endsLine_lines (lines : List Text) : endsLine true (Text.lines lines) = true := by
  induction lines with
  | nil => rfl
  | cons line lines ih =>
    rw [Text.lines_cons, endsLine_append, endsLine]
    exact ih

/-- A line with the blanks of one level before it, unless it is empty. -/
def indentedLine (depth : Nat) (line : Text) : Text :=
  if line = [] then [] else indentation depth ++ line

theorem newline_not_mem_indentedLine (depth : Nat) (h : '\n' ∉ line) :
    '\n' ∉ indentedLine depth line := by
  unfold indentedLine
  split
  · exact List.not_mem_nil
  · rw [List.mem_append, not_or]
    exact ⟨newline_not_mem_indentation depth, h⟩

theorem indented_line (depth : Nat) (h : '\n' ∉ line) :
    indented depth true line = indentedLine depth line := by
  unfold indentedLine
  split
  · subst line
    rfl
  · exact indented_true_of_line depth h ‹_›

theorem indented_line_append (depth : Nat) (h : '\n' ∉ line) (rest : Text) :
    indented depth true (line ++ '\n' :: rest) =
      indentedLine depth line ++ '\n' :: indented depth true rest := by
  rw [indented_append, indentedLine]
  by_cases hne : line = []
  · subst hne
    rw [if_pos rfl, endsLine, indented_cons_of_not_start depth (.inr rfl)]
    rfl
  · rw [if_neg hne, indented_true_of_line depth h hne, indented_cons_of_not_start depth (.inr rfl),
      decide_eq_true rfl]

theorem indented_lines (depth : Nat) {lines : List Text} (h : ∀ line ∈ lines, '\n' ∉ line) :
    indented depth true (Text.lines lines) = Text.lines (lines.map (indentedLine depth)) := by
  induction lines with
  | nil => rfl
  | cons line lines ih =>
    rw [List.forall_mem_cons] at h
    rw [Text.lines_cons, List.map_cons, Text.lines_cons, indented_line_append depth h.1, ih h.2]

theorem indented_intercalate (depth : Nat) {pieces : List Text}
    (h : ∀ piece ∈ pieces, '\n' ∉ piece) :
    indented depth true (['\n'].intercalate pieces) =
      ['\n'].intercalate (pieces.map (indentedLine depth)) := by
  induction pieces with
  | nil => rfl
  | cons piece pieces ih =>
    rw [List.forall_mem_cons] at h
    cases pieces with
    | nil =>
      rw [List.map_singleton, List.intercalate_singleton, List.intercalate_singleton,
        indented_line depth h.1]
    | cons next pieces =>
      rw [List.intercalate_cons_cons, List.append_assoc, List.singleton_append,
        indented_line_append depth h.1, ih h.2]
      simp only [List.map_cons, List.intercalate_cons_cons, List.append_assoc,
        List.singleton_append]

/-- Every line of an indented text is a line of the text, indented. -/
theorem split_indented (depth : Nat) (t : Text) :
    Text.split '\n' (indented depth true t) = (Text.split '\n' t).map (indentedLine depth) := by
  have hpieces : ∀ piece ∈ Text.split '\n' t, '\n' ∉ piece := fun _ => Text.sep_not_mem_of_mem_split
  have hlines : ∀ line ∈ (Text.split '\n' t).map (indentedLine depth), '\n' ∉ line :=
    List.forall_mem_map.2 fun piece hmem => newline_not_mem_indentedLine depth (hpieces piece hmem)
  have hne : (Text.split '\n' t).map (indentedLine depth) ≠ [] :=
    mt List.map_eq_nil_iff.1 (Text.split_ne_nil _ t)
  rw [← Text.split_intercalate hne hlines, ← indented_intercalate depth hpieces,
    Text.intercalate_split]

end Printer

/-! ### Scripts -/

namespace Script

variable {script next : Script} {t u : Text}

/-- At a line start, the script has the effect of a raw text that ends at a line start. -/
structure PrintsLines (script : Script) (t : Text) : Prop where
  endsLine : Printer.endsLine true t = true
  run : ∀ printer : Printer, printer.atLineStart = true → printer.run script = .ok (printer.raw t)

theorem Prints.printsLines (h : script.Prints t) (hends : Printer.endsLine true t = true) :
    script.PrintsLines t :=
  ⟨hends, fun printer _ => h printer⟩

theorem prints_raw (t : Text) : Prints [.raw t] t := fun _ => rfl

theorem printsLines_raw {t : Text} (h : Printer.endsLine true t = true) : PrintsLines [.raw t] t :=
  (prints_raw t).printsLines h

theorem printsLines_brace : PrintsLines [.raw "\x7d\n"] (Text.lines ["\x7d"]) := printsLines_raw rfl

theorem printsLines_nil : PrintsLines [] [] := by
  refine ⟨rfl, fun printer _ => ?_⟩
  simp [Printer.run, Printer.raw, Printer.indented, Printer.endsLine]
  rfl

theorem PrintsLines.append (h : script.PrintsLines t) (hnext : next.PrintsLines u) :
    (script ++ next).PrintsLines (t ++ u) := by
  refine ⟨by rw [Printer.endsLine_append, h.endsLine, hnext.endsLine], fun printer hstart => ?_⟩
  have hthen : (printer.raw t).atLineStart = true := by
    rw [Printer.raw, hstart]
    exact h.endsLine
  rw [Printer.run_append, h.run printer hstart]
  change (printer.raw t).run next = _
  rw [hnext.run _ hthen, Printer.raw_append]

theorem PrintsLines.flatMap {α : Type} {items : List α} {script : α → Script} {text : α → Text}
    (h : ∀ item ∈ items, (script item).PrintsLines (text item)) :
    PrintsLines (items.flatMap script) (items.flatMap text) := by
  induction items with
  | nil => exact printsLines_nil
  | cons item items ih =>
    rw [List.forall_mem_cons] at h
    exact h.1.append (ih h.2)

/-- Where lines are nested, each of them is indented by one more level. -/
theorem PrintsLines.nested (h : script.PrintsLines t) :
    (nested script).PrintsLines (Printer.indented 1 true t) := by
  refine ⟨by rw [Printer.endsLine_indented, h.endsLine], fun printer hstart => ?_⟩
  have hinner : printer.indent.run script = .ok (printer.indent.raw t) := h.run _ hstart
  have hrun : printer.run (Script.nested script) = .ok (printer.indent.raw t).outdent := by
    change printer.indent.run (script ++ [.outdent]) = _
    rw [Printer.run_append, hinner]
    rfl
  rw [hrun]
  simp only [Printer.raw, Printer.indent, Printer.outdent, hstart, Printer.indented_indented,
    Printer.endsLine_indented, Nat.add_sub_cancel]

theorem PrintsLines.text_eq (h : script.PrintsLines t) : script.text = .ok t := by
  rw [text, h.run _ rfl]
  change Except.ok (Printer.text _) = _
  rw [Printer.text_raw, Printer.indented_zero]
  rfl

/-- A template of lines prints what its lines expand to, one by one. -/
theorem printsLines_print {vars : Variables} {templates texts : List Text}
    (h : templates.mapM (Template.expand vars) = .ok texts) :
    PrintsLines [.print vars (Text.lines templates)] (Text.lines texts) :=
  (prints_print (Template.expand_lines (Traversal.mapM_eq_ok_iff.1 h))).printsLines
    (Printer.endsLine_lines texts)

/-- No script prints two texts. -/
theorem PrintsLines.eq (h : script.PrintsLines t) (hother : script.PrintsLines u) : t = u :=
  Except.ok.inj (h.text_eq.symm.trans hother.text_eq)

end Script
end EnumWire
