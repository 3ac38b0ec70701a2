import EnumWire.Printer.Template

/-! # An indenting printer

A printer writes four blanks per level before the first character of every line that is not empty.
The level in force when that character is printed counts, wherever the line was begun. -/
namespace EnumWire

structure Printer where
  /-- What has been printed, in reverse. -/
  reversed : Text := []
  depth : Nat := 0
  atLineStart : Bool := true
  deriving DecidableEq

namespace Printer

def text (printer : Printer) : Text := printer.reversed.reverse

def indentation (depth : Nat) : Text := List.replicate (4 * depth) ' '

/-- A text with the indentation before each of its lines, the first one only at a line start. -/
def indented (depth : Nat) : (atLineStart : Bool) → Text → Text
  | _, [] => []
  | atLineStart, c :: rest =>
    if atLineStart && c ≠ '\n' then indentation depth ++ c :: indented depth false rest
    else c :: indented depth (c = '\n') rest

/-- Whether a line begins after a text; an empty text changes nothing. -/
def endsLine : (atLineStart : Bool) → Text → Bool
  | atLineStart, [] => atLineStart
  | _, c :: rest => endsLine (c = '\n') rest

def raw (printer : Printer) (t : Text) : Printer :=
  { printer with
    reversed := (indented printer.depth printer.atLineStart t).reverseAux printer.reversed
    atLineStart := endsLine printer.atLineStart t }

/-- Prints an expanded template, or nothing when it cannot be expanded. -/
def print (printer : Printer) (vars : Variables) (template : Text) :
    Except TemplateError Printer :=
  (Template.expand vars template).map printer.raw

def indent (printer : Printer) : Printer := { printer with depth := printer.depth + 1 }

/-- Stays at the left margin once there. -/
def outdent (printer : Printer) : Printer := { printer with depth := printer.depth - 1 }

@[simp] theorem text_raw (printer : Printer) (t : Text) :
    (printer.raw t).text = printer.text ++ indented printer.depth printer.atLineStart t := by
  simp [raw, text, List.reverseAux_eq]

theorem endsLine_append (atLineStart : Bool) (t u : Text) :
    endsLine atLineStart (t ++ u) = endsLine (endsLine atLineStart t) u := by
  induction t generalizing atLineStart with
  | nil => rfl
  | cons c t ih => exact ih _

theorem indented_append (depth : Nat) (atLineStart : Bool) (t u : Text) :
    indented depth atLineStart (t ++ u) =
      indented depth atLineStart t ++ indented depth (endsLine atLineStart t) u := by
  induction t generalizing atLineStart with
  | nil => rfl
  | cons c t ih =>
    simp only [List.cons_append, indented, endsLine]
    split
    · rename_i h
      have hc : decide (c = '\n') = false := by
        simp only [Bool.and_eq_true, decide_eq_true_eq] at h
        simpa using h.2
      rw [ih, hc]
      simp
    · rw [ih]
      simp

end Printer

/-! ### Scripts

Generated source is described as a list of printing steps, apart from the printer that carries them
out. A run stops at the first template that cannot be expanded. -/

inductive PrintStep where
  | raw (t : Text)
  | print (vars : Variables) (template : Text)
  | indent
  | outdent
  deriving DecidableEq

abbrev Script := List PrintStep

def Printer.perform (printer : Printer) : PrintStep → Except TemplateError Printer
  | .raw t => .ok (printer.raw t)
  | .print vars template => printer.print vars template
  | .indent => .ok printer.indent
  | .outdent => .ok printer.outdent

def Printer.run (printer : Printer) (script : Script) : Except TemplateError Printer :=
  script.foldlM Printer.perform printer

namespace Script

/-- A script one level further in. -/
def nested (script : Script) : Script := .indent :: script ++ [.outdent]

/-- What a fresh printer prints. -/
def text (script : Script) : Except TemplateError Text :=
  (Printer.run {} script).map Printer.text

end Script

/-- Lines, each with its line break. -/
def Text.lines (ls : List Text) : Text :=
  ls.flatMap fun line => line ++ "\n"

theorem Printer.run_append (printer : Printer) (first second : Script) :
    printer.run (first ++ second) = (printer.run first).bind fun next => next.run second := by
  simp only [Printer.run, List.foldlM_append]
  rfl

end EnumWire
