import EnumWire.Printer.Basic

/-! # Printing as an action

An action is given a printer that its caller keeps. What it has printed before it fails stays
printed, and whoever catches the failure goes on from there. -/
namespace EnumWire

abbrev Printing := ExceptT TemplateError (StateM Printer)

namespace Printing

/-- What comes of an action, and the printer that it leaves behind in either case. -/
def on {α : Type} (action : Printing α) (printer : Printer) : Except TemplateError α × Printer :=
  (ExceptT.run action).run printer

def raw (t : Text) : Printing Unit := modify fun printer => printer.raw t

/-- Goes through a template from placeholder to placeholder; `expanded` is what the part before
`rest` has come to. -/
def expand (vars : Variables) (template expanded rest : Text) : Printing Text :=
  match _ : Text.splitFirst '$' rest with
  | none => return expanded ++ rest
  | some (literal, inside) =>
    match _ : Text.splitFirst '$' inside with
    | none => throw (.unterminated template)
    | some (name, after) => do
      let text ← ofExcept (Template.value vars name)
      expand vars template (expanded ++ literal ++ text) after
termination_by rest.length
decreasing_by
  exact Nat.lt_trans (Text.length_lt_of_splitFirst ‹Text.splitFirst '$' inside = _›)
    (Text.length_lt_of_splitFirst ‹Text.splitFirst '$' rest = _›)

def print (vars : Variables) (template : Text) : Printing Unit := do
  let text ← expand vars template [] template
  raw text

variable {α β : Type} {printer between : Printer}

theorem on_bind_of_ok {action : Printing α} {next : α → Printing β} {value : α}
    (h : action.on printer = (.ok value, between)) :
    (action >>= next).on printer = (next value).on between := by
  change (match action.on printer with
    | (result, between) => ExceptT.bindCont next result between) = _
  rw [h]
  rfl

theorem on_bind_of_error {action : Printing α} {next : α → Printing β} {error : TemplateError}
    (h : action.on printer = (.error error, between)) :
    (action >>= next).on printer = (.error error, between) := by
  change (match action.on printer with
    | (result, between) => ExceptT.bindCont next result between) = _
  rw [h]
  rfl

theorem on_ofExcept (result : Except TemplateError α) (printer : Printer) :
    on (ofExcept result) printer = (result, printer) := by
  cases result <;> rfl

end Printing
end EnumWire
