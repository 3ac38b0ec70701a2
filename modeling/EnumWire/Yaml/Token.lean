import EnumWire.Yaml.Quoting
import EnumWire.Yaml.Room
import EnumWire.Yaml.Source

/-! # Tokens of YAML streams

Block collections have start and end tokens of their own, which indentation decides. Anchors and
aliases have numbers for their names. Where a stream cannot be read on, its flaw is a token. -/
namespace EnumWire.Yaml

inductive Token where
  | version (major minor : Nat)
  | tagHandle (handle : Text) (start : List UInt8)
  | documentStart
  | documentEnd
  | blockSequence
  | blockMapping
  | blockEnd
  | flowSequence
  | flowSequenceEnd
  | flowMapping
  | flowMappingEnd
  | comma
  | dash
  | key
  | value
  | alias (anchor : Nat)
  | anchor (anchor : Nat)
  | tag (handle : Text) (suffix : List UInt8)
  | scalar (style : Style) (text : Text)
  | flaw (flaw : Flaw)
  deriving DecidableEq

/-- What a reader of part of a stream answers, and what it leaves. -/
abbrev Reading (α : Type) := Except Flaw (α × Source)

namespace Reading

/-- Applies a function to what was read. -/
def answer {α β : Type} (f : α → β) (reading : Reading α) : Reading β :=
  reading.map fun (a, rest) => (f a, rest)

/-- Puts a text before the one that was read. -/
def after (before : Text) (reading : Reading Text) : Reading Text :=
  reading.answer (before ++ ·)

end Reading
end EnumWire.Yaml
