import EnumWire.Proofs.Printer.Filling
import EnumWire.Proofs.Printer.Lines

/-! # The depth of a line

Whatever is printed, and however it is cut into pieces, a printer adds nothing but blanks before the
first characters of lines. How many there are before a line depends on the depth in force when that
character was printed; lines may be begun at one depth and go on at another. -/
namespace EnumWire

/-- A character with the depth in force when it was printed. -/
structure Stroke where
  char : Char
  depth : Nat
  deriving DecidableEq

namespace Stroke

def text (strokes : List Stroke) : Text := strokes.map Stroke.char

def lines (strokes : List Stroke) : List (List Stroke) :=
  strokes.splitOnP fun stroke => stroke.char = '\n'

/-- A line is as deep as its first character. -/
def lineDepth : List Stroke → Nat
  | [] => 0
  | first :: _ => first.depth

/-- A line that is not empty has the indentation of its depth before it. -/
def indentedLine (line : List Stroke) : Text := Printer.indentedLine (lineDepth line) (text line)

end Stroke

/-! ### What a run prints -/

/-- The depth after a step. At the left margin there is no step out. -/
def PrintStep.depthAfter (depth : Nat) : PrintStep → Nat
  | .indent => depth + 1
  | .outdent => depth - 1
  | _ => depth

/-- The text that a step is to print. -/
def PrintStep.printed : PrintStep → Text
  | .raw t => t
  | .print vars template => Template.filled vars template
  | _ => []

namespace Script

def depthAfter (depth : Nat) (script : Script) : Nat := script.foldl PrintStep.depthAfter depth

def printed (script : Script) : Text := script.flatMap PrintStep.printed

/-- The characters that a script prints from a depth on. -/
def strokes : (depth : Nat) → Script → List Stroke
  | _, [] => []
  | depth, step :: script =>
    step.printed.map (Stroke.mk · depth) ++ strokes (step.depthAfter depth) script

/-- How the lines of an output come from those of the texts that have been printed. -/
structure LaysOut (script : Script) (output : Text) : Prop where
  lines : (Stroke.lines (script.strokes 0)).map Stroke.text = Text.split '\n' script.printed
  indented : Text.split '\n' output = (Stroke.lines (script.strokes 0)).map Stroke.indentedLine
  /-- Without the indentation of each line, the output is what was to be printed. -/
  erased : ['\n'].intercalate (List.zipWith (fun line t => t.drop (4 * Stroke.lineDepth line))
    (Stroke.lines (script.strokes 0)) (Text.split '\n' output)) = script.printed

end Script

/-! ### Characters of different depths -/

namespace Stroke

variable {strokes line : List Stroke} {atLineStart : Bool}

/-- Characters with the indentation before each line, the first one only at a line start. -/
def laidOut : (atLineStart : Bool) → List Stroke → Text
  | _, [] => []
  | atLineStart, stroke :: strokes =>
    if atLineStart && stroke.char ≠ '\n' then
      Printer.indentation stroke.depth ++ stroke.char :: laidOut false strokes
    else stroke.char :: laidOut (stroke.char = '\n') strokes

theorem laidOut_map (depth : Nat) (atLineStart : Bool) (t : Text) (rest : List Stroke) :
    laidOut atLineStart (t.map (Stroke.mk · depth) ++ rest) =
      Printer.indented depth atLineStart t ++ laidOut (Printer.endsLine atLineStart t) rest := by
  induction t generalizing atLineStart with
  | nil => rfl
  | cons c t ih =>
    rw [List.map_cons, List.cons_append, laidOut, Printer.indented, ih, ih, Printer.endsLine]
    split
    · rename_i h
      have hc : c ≠ '\n' := by
        rw [Bool.and_eq_true] at h
        simpa using h.2
      rw [decide_eq_false hc, List.append_assoc, List.cons_append]
    · rfl

theorem lines_cons (stroke : Stroke) (strokes : List Stroke) :
    lines (stroke :: strokes) =
      if stroke.char = '\n' then [] :: lines strokes
      else (lines strokes).modifyHead (stroke :: ·) := by
  simp only [lines, List.splitOnP_cons_eq_if_modifyHead, decide_eq_true_eq]

theorem exists_lines_eq (strokes : List Stroke) :
    ∃ first rest, lines strokes = first :: rest :=
  List.exists_cons_of_ne_nil (List.splitOnP_ne_nil _ strokes)

theorem map_text_lines (strokes : List Stroke) :
    (lines strokes).map text = Text.split '\n' (text strokes) := by
  induction strokes with
  | nil => rfl
  | cons stroke strokes ih =>
    obtain ⟨first, rest, hlines⟩ := exists_lines_eq strokes
    rw [text, List.map_cons, Text.split, ← text, ← ih, lines_cons, hlines]
    split
    · rfl
    · rfl

/-- The line that is under way at the beginning is not indented again. -/
theorem split_laidOut {first : List Stroke} {rest : List (List Stroke)}
    (h : lines strokes = first :: rest) :
    Text.split '\n' (laidOut atLineStart strokes) =
      (if atLineStart then indentedLine first else text first) :: rest.map indentedLine := by
  induction strokes generalizing atLineStart first rest with
  | nil =>
    obtain ⟨rfl, rfl⟩ := List.cons.inj h
    cases atLineStart <;> rfl
  | cons stroke strokes ih =>
    obtain ⟨next, others, hlines⟩ := exists_lines_eq strokes
    rw [lines_cons, hlines] at h
    by_cases hc : stroke.char = '\n'
    · rw [if_pos hc] at h
      obtain ⟨rfl, rfl⟩ := List.cons.inj h
      rw [laidOut, if_neg (by simp [hc]), Text.split, if_pos hc, decide_eq_true hc, ih hlines,
        if_pos rfl, List.map_cons]
      cases atLineStart <;> rfl
    · rw [if_neg hc] at h
      obtain ⟨rfl, rfl⟩ := List.cons.inj h
      have hgoesOn : Text.split '\n' (stroke.char :: laidOut false strokes) =
          (stroke.char :: text next) :: others.map indentedLine := by
        rw [Text.split, if_neg hc, ih hlines]
        rfl
      cases atLineStart with
      | false =>
        rw [laidOut, if_neg (by simp), decide_eq_false hc, hgoesOn]
        rfl
      | true =>
        rw [laidOut, if_pos (by simpa using hc),
          Text.split_append_of_not_mem (Printer.newline_not_mem_indentation _), hgoesOn]
        rfl

theorem drop_indentedLine (line : List Stroke) :
    (indentedLine line).drop (4 * lineDepth line) = text line := by
  cases line with
  | nil => rfl
  | cons stroke line =>
    have hne : text (stroke :: line) ≠ [] := List.cons_ne_nil _ _
    have hlength : 4 * stroke.depth = (Printer.indentation stroke.depth).length :=
      List.length_replicate.symm
    rw [indentedLine, Printer.indentedLine, if_neg hne, lineDepth, hlength, List.drop_left]

end Stroke

/-! ### Runs -/

namespace PrintStep

/-- A filled step prints its text and moves the margin. -/
theorem perform_eq {step : PrintStep} (h : step.IsFilled) (printer : Printer) :
    printer.perform step =
      .ok { printer.raw step.printed with depth := step.depthAfter printer.depth } := by
  cases step with
  | print vars template => exact (perform_eq_ok_iff (.print vars template)).2 ⟨h, rfl⟩
  | raw t => rfl
  | indent => rfl
  | outdent => rfl

end PrintStep

namespace Script

variable {script : Script}

theorem text_strokes (depth : Nat) (script : Script) :
    Stroke.text (script.strokes depth) = script.printed := by
  induction script generalizing depth with
  | nil => rfl
  | cons step script ih =>
    rw [strokes, Stroke.text, List.map_append, List.map_map, ← Stroke.text, ih, printed, printed,
      List.flatMap_cons]
    exact congrArg (· ++ _) (List.map_id _)

theorem run_of_isFilled (h : ∀ step ∈ script, step.IsFilled) (printer : Printer) :
    ∃ next, printer.run script = .ok next ∧
      next.text = printer.text ++ Stroke.laidOut printer.atLineStart (script.strokes printer.depth) ∧
      next.depth = script.depthAfter printer.depth := by
  induction script generalizing printer with
  | nil => exact ⟨printer, rfl, (List.append_nil _).symm, rfl⟩
  | cons step script ih =>
    rw [List.forall_mem_cons] at h
    obtain ⟨next, hrun, htext, hdepth⟩ := ih h.2
      { printer.raw step.printed with depth := step.depthAfter printer.depth }
    refine ⟨next, run_cons_eq_ok_iff.2 ⟨_, PrintStep.perform_eq h.1 printer, hrun⟩, ?_, hdepth⟩
    rw [htext, strokes, Stroke.laidOut_map, ← List.append_assoc, ← Printer.text_raw]
    rfl

theorem depth_of_run {printer next : Printer} (hrun : printer.run script = .ok next) :
    next.depth = script.depthAfter printer.depth := by
  obtain ⟨other, hother, -, hdepth⟩ := run_of_isFilled (run_eq_ok_iff.1 hrun).1 printer
  obtain rfl := Except.ok.inj (hrun.symm.trans hother)
  exact hdepth

theorem laysOut_laidOut (script : Script) :
    script.LaysOut (Stroke.laidOut true (script.strokes 0)) := by
  obtain ⟨first, rest, hlines⟩ := Stroke.exists_lines_eq (script.strokes 0)
  have hcut : (Stroke.lines (script.strokes 0)).map Stroke.text = Text.split '\n' script.printed := by
    rw [Stroke.map_text_lines, text_strokes]
  have hindented : Text.split '\n' (Stroke.laidOut true (script.strokes 0)) =
      (Stroke.lines (script.strokes 0)).map Stroke.indentedLine := by
    rw [Stroke.split_laidOut hlines, if_pos rfl, hlines, List.map_cons]
  refine ⟨hcut, hindented, ?_⟩
  rw [hindented, List.zipWith_map_right, List.zipWith_self,
    List.map_congr_left fun line _ => Stroke.drop_indentedLine line, hcut, Text.intercalate_split]

/-- Steps without a template are filled in any case. -/
theorem run_indents_lines :
    (∀ script : Script, (∀ step ∈ script, step.IsFilled) →
      ∃ printer, Printer.run {} script = .ok printer ∧ script.LaysOut printer.text) ∧
    ∀ (printer : Printer) (t u : Text), (printer.raw t).raw u = printer.raw (t ++ u) := by
  refine ⟨fun script h => ?_, Printer.raw_append⟩
  obtain ⟨printer, hrun, htext, -⟩ := run_of_isFilled h {}
  refine ⟨printer, hrun, ?_⟩
  rw [htext]
  exact laysOut_laidOut script

/-- The second line is begun at one depth and gone on with at another, and the steps out are more
than the steps in. -/
def movingMargin : Script :=
  [.outdent, .raw "a\n", .indent, .raw "b", .indent, .raw " = c\n\n",
    .print [("name", "d\n e")] "$name$", .outdent, .outdent, .outdent, .raw "\nf"]

theorem run_indents_lines_movingMargin :
    (∀ step ∈ movingMargin, step.IsFilled) ∧
    ∃ printer, Printer.run {} movingMargin = .ok printer ∧ movingMargin.LaysOut printer.text ∧
      printer.text = "a\n    b = c\n\n        d\n         e\nf".toList := by
  have hexpand : Template.expand [("name", "d\n e")] "$name$" = .ok "d\n e" := by decide
  have hfilled : ∀ step ∈ movingMargin, step.IsFilled := by
    simp only [movingMargin, List.forall_mem_cons, PrintStep.IsFilled, true_and]
    exact ⟨(Template.expand_eq_ok_iff.1 hexpand).1, nofun⟩
  obtain ⟨printer, hrun, hlines⟩ := run_indents_lines.1 movingMargin hfilled
  refine ⟨hfilled, printer, hrun, hlines, ?_⟩
  have htext : (Printer.run {} movingMargin).map Printer.text =
      .ok "a\n    b = c\n\n        d\n         e\nf" := by decide +kernel
  rw [hrun] at htext
  exact Except.ok.inj htext

end Script
end EnumWire
