import EnumWire.Yaml.Quoting

/-! # Structured data

What a report looks like to a program: texts, numbers, lists, and records whose fields keep their
order. It is written as JSON or as YAML. -/
namespace EnumWire

inductive Data where
  | text (t : Text)
  | number (n : Nat)
  | list (items : List Data)
  | record (fields : List (Text × Data))

namespace Data.Json

/-! ### As JSON

One element or field a line, two blanks per level; empty lists and records stay on their line. Only
quotes, backslashes and control characters below the space are escaped. -/

def hexDigits (width n : Nat) : Text :=
  let ds := Text.digits 16 n
  List.replicate (width - ds.length) '0' ++ ds

def escape (c : Char) : Text :=
  if c = '\x22' then "\\\""
  else if c = '\\' then "\\\\"
  else if c = '\n' then "\\n"
  else if c = '\r' then "\\r"
  else if c = '\t' then "\\t"
  else if c = '\x08' then "\\b"
  else if c = '\x0c' then "\\f"
  else if c.toNat < 0x20 then "\\u" ++ hexDigits 4 c.toNat
  else [c]

def quoted (t : Text) : Text := "\"" ++ t.flatMap escape ++ "\""

def lineBreak (level : Nat) : Text := '\n' :: List.replicate (2 * level) ' '

/-- Entries between brackets, one a line. -/
def enclosed (level : Nat) (opening closing : Char) (entries : List Text) : Text :=
  if entries.isEmpty then [opening, closing]
  else
    opening :: List.intercalate [','] (entries.map (lineBreak (level + 1) ++ ·)) ++
      lineBreak level ++ [closing]

mutual

def render (level : Nat) : Data → Text
  | .text t => quoted t
  | .number n => Text.ofNat n
  | .list items => enclosed level '[' ']' (renderItems (level + 1) items)
  | .record fields => enclosed level '\x7b' '\x7d' (renderFields (level + 1) fields)

def renderItems (level : Nat) : List Data → List Text
  | [] => []
  | item :: items => render level item :: renderItems level items

def renderFields (level : Nat) : List (Text × Data) → List Text
  | [] => []
  | (name, value) :: fields =>
    (quoted name ++ ": " ++ render level value) :: renderFields level fields

end

end Data.Json

namespace Data.Yaml

/-! ### As YAML

Block collections, one entry a line: fields of a nested record are indented by two blanks, and the
dashes of a list stand under the name of its field. Empty collections are written in brackets. -/

open EnumWire.Yaml (isBreak Quoting.render Quoting.endsWith)

def pad (indent : Nat) : Text := List.replicate indent ' '

/-- A dash in the place of the last two blanks before the first entry. -/
def dashed (indent : Nat) : List Text → List Text
  | [] => []
  | first :: rest => (pad indent ++ "- " ++ first.drop (indent + 2)) :: rest

mutual

/-- The entries of a collection, or the one entry of anything else, at an indentation. -/
def entries (indent : Nat) : Data → List Text
  | .text t => [pad indent ++ Quoting.render indent t]
  | .number n => [pad indent ++ Text.ofNat n]
  | .list [] => [pad indent ++ "[]"]
  | .list (item :: items) => itemEntries indent (item :: items)
  | .record [] => [pad indent ++ "\x7b\x7d"]
  | .record (field :: fields) => fieldEntries indent (field :: fields)

def itemEntries (indent : Nat) : List Data → List Text
  | [] => []
  | item :: items => dashed indent (entries (indent + 2) item) ++ itemEntries indent items

def fieldEntries (indent : Nat) : List (Text × Data) → List Text
  | [] => []
  | (name, value) :: fields =>
    (match value with
    | .text t => [pad indent ++ name ++ ": " ++ Quoting.render (indent + 2) t]
    | .number n => [pad indent ++ name ++ ": " ++ Text.ofNat n]
    | .list [] => [pad indent ++ name ++ ": []"]
    | .list (item :: items) => (pad indent ++ name ++ ":") :: itemEntries indent (item :: items)
    | .record [] => [pad indent ++ name ++ ": \x7b\x7d"]
    | .record (field :: more) => (pad indent ++ name ++ ":") :: fieldEntries (indent + 2) (field :: more)) ++
    fieldEntries indent fields

end

/-- Ends a line, unless a block has ended it already. -/
def endLine (entry : Text) : Text :=
  if Quoting.endsWith isBreak entry then entry else entry ++ "\n"

def render (data : Data) : Text := (entries 0 data).flatMap endLine

end Data.Yaml
end EnumWire
