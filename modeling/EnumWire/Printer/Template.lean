import EnumWire.Text.Quoted

/-! # Templates

A template is a text in which a name between two dollar signs stands for a variable, and two dollar
signs with nothing between them for one dollar sign. Expansion goes from left to right and does not
look at what it has put in. -/
namespace EnumWire

/-- Names and the texts they stand for. -/
abbrev Variables := List (Text × Text)

inductive TemplateError where
  | unterminated (template : Text)
  | undefined (name : Text)
  deriving DecidableEq

def TemplateError.message : TemplateError → Text
  | .unterminated template => "unterminated placeholder in template: " ++ Text.quoted template
  | .undefined name => "undefined template variable '" ++ name ++ "'"

namespace Template

/-- What stands for the text between two dollar signs. -/
def value (vars : Variables) (name : Text) : Except TemplateError Text :=
  if name = [] then .ok "$"
  else match vars.lookup name with
    | some text => .ok text
    | none => .error (.undefined name)

/-- Expands the rest of `template`; inside a placeholder, `name` holds what of it has been read, in
reverse. -/
def expandFrom (vars : Variables) (template : Text) :
    (name : Option Text) → Text → Except TemplateError Text
  | none, [] => .ok []
  | some _, [] => .error (.unterminated template)
  | none, c :: rest =>
    if c = '$' then expandFrom vars template (some []) rest
    else (expandFrom vars template none rest).map (c :: ·)
  | some name, c :: rest =>
    if c = '$' then
      match value vars name.reverse with
      | .error e => .error e
      | .ok text => (expandFrom vars template none rest).map (text ++ ·)
    else expandFrom vars template (some (c :: name)) rest

def expand (vars : Variables) (template : Text) : Except TemplateError Text :=
  expandFrom vars template none template

end Template
end EnumWire
