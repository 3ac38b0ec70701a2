import EnumWire.Printer.Printing
import EnumWire.Proofs.Printer.Filling
import EnumWire.Proofs.Printer.Lines

/-! # Templates that cannot be filled

Of the placeholders that stand for no text, the leftmost one is the failure; that the last one is
left open matters only where there are none. The text is put together before any of it is printed,
so that a printer is as it was when printing has failed. -/
namespace EnumWire

namespace Template

variable {vars : Variables} {template name other : Text} {rest : List Text} {i : Nat}
  {error : TemplateError}

/-- A closed placeholder stands for no text: every second piece is a placeholder, and it is closed
where another piece follows. -/
structure UndefinedAt (vars : Variables) (pieces : List Text) (i : Nat) (name : Text) : Prop where
  placeholder : i % 2 = 1
  closed : i + 1 < pieces.length
  here : pieces[i]? = some name
  undefined : ¬ Defined vars name

/-- Why pieces cannot be filled. -/
inductive PiecesFail (vars : Variables) (template : Text) (pieces : List Text) :
    TemplateError → Prop
  | undefined {i : Nat} {name : Text} (hname : UndefinedAt vars pieces i name)
    (hfirst : ∀ (j : Nat) (other : Text), UndefinedAt vars pieces j other → i ≤ j) :
    PiecesFail vars template pieces (.undefined name)
  | unterminated (hopen : pieces.length % 2 = 0)
    (hdefined : ∀ (j : Nat) (other : Text), ¬ UndefinedAt vars pieces j other) :
    PiecesFail vars template pieces (.unterminated template)

/-- Why a template cannot be filled. -/
def Fails (vars : Variables) (template : Text) : TemplateError → Prop :=
  PiecesFail vars template (Text.split '$' template)

theorem value_eq_error_iff :
    value vars name = .error error ↔ ¬ Defined vars name ∧ error = .undefined name := by
  unfold value Defined
  by_cases hempty : name = []
  · simp [hempty]
  · rw [if_neg hempty]
    cases vars.lookup name <;> simp [hempty, eq_comm]

/-! ### The first two pieces -/

theorem UndefinedAt.one_le {pieces : List Text} (h : UndefinedAt vars pieces i name) : 1 ≤ i := by
  have hodd := h.placeholder
  omega

theorem undefinedAt_one_iff {literal : Text} :
    UndefinedAt vars (literal :: name :: rest) 1 other ↔
      other = name ∧ rest ≠ [] ∧ ¬ Defined vars name := by
  constructor
  · rintro ⟨-, hclosed, hhere, hundefined⟩
    obtain rfl : name = other := Option.some.inj hhere
    refine ⟨rfl, fun hnil => ?_, hundefined⟩
    rw [hnil] at hclosed
    exact Nat.lt_irrefl 2 hclosed
  · rintro ⟨rfl, hne, hundefined⟩
    have hpos := List.length_pos_of_ne_nil hne
    exact ⟨rfl, by simp only [List.length_cons]; omega, rfl, hundefined⟩

theorem undefinedAt_add_two {literal : Text} :
    UndefinedAt vars (literal :: name :: rest) (i + 2) other ↔ UndefinedAt vars rest i other := by
  constructor
  · rintro ⟨hodd, hclosed, hhere, hundefined⟩
    simp only [List.length_cons] at hclosed
    exact ⟨by omega, by omega, hhere, hundefined⟩
  · rintro ⟨hodd, hclosed, hhere, hundefined⟩
    exact ⟨by omega, by simp only [List.length_cons]; omega, hhere, hundefined⟩

/-- A placeholder that stands for a text leaves the failure to the pieces behind it. -/
theorem piecesFail_cons_cons_of_defined {literal : Text} (hdefined : Defined vars name) :
    PiecesFail vars template (literal :: name :: rest) error ↔
      PiecesFail vars template rest error := by
  have hbehind {j : Nat} {other : Text} (h : UndefinedAt vars (literal :: name :: rest) j other) :
      ∃ k, j = k + 2 ∧ UndefinedAt vars rest k other := by
    match j with
    | 0 => exact absurd h.one_le (by decide)
    | 1 => exact absurd hdefined (undefinedAt_one_iff.1 h).2.2
    | k + 2 => exact ⟨k, rfl, undefinedAt_add_two.1 h⟩
  constructor
  · rintro (⟨hname, hfirst⟩ | ⟨hopen, hnone⟩)
    · obtain ⟨k, rfl, hrest⟩ := hbehind hname
      refine .undefined hrest fun j other h => ?_
      exact Nat.le_of_add_le_add_right (hfirst (j + 2) other (undefinedAt_add_two.2 h))
    · simp only [List.length_cons] at hopen
      exact .unterminated (by omega) fun j other h => hnone (j + 2) other (undefinedAt_add_two.2 h)
  · rintro (⟨hname, hfirst⟩ | ⟨hopen, hnone⟩)
    · refine .undefined (undefinedAt_add_two.2 hname) fun j other h => ?_
      obtain ⟨k, rfl, hrest⟩ := hbehind h
      exact Nat.add_le_add_right (hfirst k other hrest) 2
    · refine .unterminated (by simp only [List.length_cons]; omega) fun j other h => ?_
      obtain ⟨k, rfl, hrest⟩ := hbehind h
      exact hnone k other hrest

theorem piecesFail_cons_cons_of_undefined {literal : Text} (hne : rest ≠ [])
    (hundefined : ¬ Defined vars name) :
    PiecesFail vars template (literal :: name :: rest) error ↔ error = .undefined name := by
  have hhere : UndefinedAt vars (literal :: name :: rest) 1 name :=
    undefinedAt_one_iff.2 ⟨rfl, hne, hundefined⟩
  constructor
  · rintro (⟨hname, hfirst⟩ | ⟨-, hnone⟩)
    · obtain rfl := Nat.le_antisymm (hfirst 1 name hhere) hname.one_le
      rw [(undefinedAt_one_iff.1 hname).1]
    · exact absurd hhere (hnone 1 name)
  · rintro rfl
    exact .undefined hhere fun j other h => h.one_le

theorem fill_eq_error_iff {pieces : List Text} (hne : pieces ≠ []) :
    fill vars template pieces = .error error ↔ PiecesFail vars template pieces error := by
  fun_induction fill vars template pieces with
  | case1 => exact absurd rfl hne
  | case2 literal =>
    constructor
    · intro h
      cases h
    · rintro (⟨hname, -⟩ | ⟨hopen, -⟩)
      · exact absurd hname.closed (by simp)
      · simp at hopen
  | case3 literal name =>
    have hnone (j : Nat) (other : Text) : ¬ UndefinedAt vars [literal, name] j other := by
      intro h
      have hclosed : j + 1 < 2 := h.closed
      have hpos := h.one_le
      omega
    rw [Except.error.injEq]
    constructor
    · rintro rfl
      exact .unterminated (by simp) hnone
    · rintro (⟨hname, -⟩ | -)
      · exact absurd hname (hnone _ _)
      · rfl
  | case4 literal name next rest failure hfailure =>
    obtain ⟨hundefined, rfl⟩ := value_eq_error_iff.1 hfailure
    rw [piecesFail_cons_cons_of_undefined (List.cons_ne_nil _ _) hundefined, Except.error.injEq,
      eq_comm]
  | case5 literal name next rest text htext ih =>
    obtain ⟨hdefined, -⟩ := value_eq_ok_iff.1 htext
    rw [Traversal.map_eq_error_iff, ih (List.cons_ne_nil _ _),
      piecesFail_cons_cons_of_defined hdefined]

theorem expand_eq_error_iff : expand vars template = .error error ↔ Fails vars template error := by
  rw [expand_eq_fill]
  exact fill_eq_error_iff (Text.split_ne_nil '$' template)

end Template

/-! ### What is left of the printer -/

namespace Printing

variable {vars : Variables} {template : Text} {printer next : Printer}
  {result : Except TemplateError Unit}

/-- Nothing is printed on the way, whatever the template comes to. -/
theorem on_expand (vars : Variables) (template expanded rest : Text) (printer : Printer) :
    (expand vars template expanded rest).on printer =
      ((Template.fill vars template (Text.split '$' rest)).map (expanded ++ ·), printer) := by
  fun_induction expand vars template expanded rest with
  | case1 expanded rest hopen =>
    rw [Text.split_of_not_mem (Text.splitFirst_eq_none_iff.1 hopen)]
    rfl
  | case2 expanded rest literal inside hopen hclose =>
    obtain ⟨rfl, hliteral⟩ := Text.splitFirst_eq_some_iff.1 hopen
    rw [Text.split_append_cons hliteral, Text.split_of_not_mem (Text.splitFirst_eq_none_iff.1 hclose)]
    rfl
  | case3 expanded rest literal inside hopen name after hclose ih =>
    obtain ⟨rfl, hliteral⟩ := Text.splitFirst_eq_some_iff.1 hopen
    obtain ⟨rfl, hname⟩ := Text.splitFirst_eq_some_iff.1 hclose
    obtain ⟨piece, pieces, hafter⟩ := List.exists_cons_of_ne_nil (Text.split_ne_nil '$' after)
    rw [Text.split_append_cons hliteral, Text.split_append_cons hname, hafter, Template.fill]
    cases hvalue : Template.value vars name with
    | error error =>
      rw [on_bind_of_error (on_ofExcept (.error error) printer)]
      rfl
    | ok text =>
      rw [on_bind_of_ok (on_ofExcept (.ok text) printer), ih text, hafter, Traversal.map_map_eq]
      simp only [Function.comp_def, List.append_assoc]

theorem on_print (vars : Variables) (template : Text) (printer : Printer) :
    (print vars template).on printer =
      match Template.expand vars template with
      | .ok t => (.ok (), printer.raw t)
      | .error error => (.error error, printer) := by
  have hexpand := on_expand vars template [] template printer
  rw [← Template.expand_eq_fill] at hexpand
  unfold print
  cases hresult : Template.expand vars template with
  | ok t =>
    rw [hresult] at hexpand
    rw [on_bind_of_ok hexpand]
    rfl
  | error error =>
    rw [hresult] at hexpand
    rw [on_bind_of_error hexpand]

/-- Printing a template either has the effect of the filled template as a raw text, which it has
where every placeholder stands for a text, or it fails and has none. -/
theorem print_fills_or_fails (vars : Variables) (template : Text) (printer : Printer) :
    (∀ result next, (print vars template).on printer = (result, next) ↔
      (Template.IsFilled vars template ∧ result = .ok () ∧
        next = printer.raw (Template.filled vars template)) ∨
      ∃ error, Template.Fails vars template error ∧ result = .error error ∧ next = printer) ∧
    printer.print vars template =
      ((print vars template).on printer).1.map fun _ => ((print vars template).on printer).2 := by
  rw [on_print, Printer.print]
  cases hresult : Template.expand vars template with
  | ok t =>
    obtain ⟨hfilled, rfl⟩ := Template.expand_eq_ok_iff.1 hresult
    have hfails (error : TemplateError) : ¬ Template.Fails vars template error := by
      intro h
      cases hresult.symm.trans (Template.expand_eq_error_iff.2 h)
    refine ⟨fun result next => ?_, rfl⟩
    simp only [Prod.mk.injEq, hfilled, hfails, true_and, false_and, exists_false, or_false]
    exact and_congr eq_comm eq_comm
  | error error =>
    have hfails := Template.expand_eq_error_iff.1 hresult
    have hunfilled : ¬ Template.IsFilled vars template := by
      intro h
      cases hresult.symm.trans (Template.expand_eq_ok_iff.2 ⟨h, rfl⟩)
    refine ⟨fun result next => ?_, rfl⟩
    simp only [Prod.mk.injEq, hunfilled, false_and, false_or]
    constructor
    · rintro ⟨rfl, rfl⟩
      exact ⟨error, hfails, rfl, rfl⟩
    · rintro ⟨other, hother, rfl, rfl⟩
      exact ⟨congrArg _ (Except.error.inj (hresult.symm.trans
        (Template.expand_eq_error_iff.2 hother))), rfl⟩

end Printing
end EnumWire
