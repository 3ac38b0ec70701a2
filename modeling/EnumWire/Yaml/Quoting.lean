import EnumWire.Yaml.Scalar
import EnumWire.Yaml.Source

/-! # How a text is written as a scalar

A text is plain where it reads back as itself; else it stands between single quotes, as a literal
block when it has line breaks, or between double quotes when nothing else can hold it. -/
namespace EnumWire.Yaml

inductive Style where
  | plain
  | single
  | double
  | literal
  | folded
  deriving DecidableEq

namespace Quoting

/-! ### Which styles can hold a text -/

/-- Whether a blank, a break or the end comes first. -/
def separatorAhead : Text → Bool
  | [] => true
  | c :: _ => isSeparator c

/-- The first character, or what comes after it, has a meaning of its own. -/
def opensIndicator : Text → Bool
  | [] => false
  | c :: rest =>
    "#,[]\x7b\x7d&*!|>'\x22%@\x60".toList.contains c ||
      ("?:-".toList.contains c && separatorAhead rest)

/-- Three dashes or dots come first. -/
def opensMarker (t : Text) : Bool :=
  t.take 3 = "---" || t.take 3 = "..."

/-- Whether a character of one kind comes right before one of another kind. -/
def adjacent (first second : Char → Bool) (t : Text) : Bool :=
  (t.zip t.tail).any fun (a, b) => first a && second b

def beginsWith (p : Char → Bool) (t : Text) : Bool := (t.head?.map p).getD false

def endsWith (p : Char → Bool) (t : Text) : Bool := (t.getLast?.map p).getD false

/-- A colon before a blank or the end, or a number sign after a blank. -/
def holdsIndicator (t : Text) : Bool :=
  adjacent isSeparator (· = '#') t || adjacent (· = ':') isSeparator (t.drop 1) ||
    endsWith (· = ':') (t.drop 1)

def isBlank (c : Char) : Bool := c = ' '

def needsEscape (c : Char) : Bool := !isPrintable c || c = byteOrderMark

/-- Only escapes keep a character that cannot be printed, or a space before a line break. -/
def onlyDouble (t : Text) : Bool :=
  t.any needsEscape || adjacent isBlank isBreak t

def allowsLiteral (t : Text) : Bool :=
  t ≠ [] && !endsWith isBlank t && !onlyDouble t

def allowsSingle (t : Text) : Bool :=
  !adjacent isBreak isBlank t && !onlyDouble t

def allowsPlain (t : Text) : Bool :=
  !beginsWith isBlank t && !endsWith isBlank t && !t.any isBreak && !onlyDouble t &&
    !opensMarker t && !opensIndicator t && !holdsIndicator t

/-- The words that some reader takes for a truth value, for nothing or for no number. -/
def reservedWords : List Text :=
  (["y", "yes", "n", "no", "on", "off", "true", "false", "null", "nil", "~", "nan"] :
    List String).map String.toList

/-- Whether some reader may take a plain scalar for something else than its text: for a reserved
word in any case, or for a number, as which all count that begin like one. -/
def isAmbiguous : Text → Bool
  | [] => true
  | c :: rest =>
    c.isDigit || "-.+".toList.contains c || reservedWords.contains ((c :: rest).map Char.toLower)

def style (t : Text) : Style :=
  if t.contains '\n' then if allowsLiteral t then .literal else .double
  else if !isAmbiguous t && allowsPlain t then .plain
  else if allowsSingle t then .single
  else .double

/-! ### The text of a scalar -/

def lineStart (indent : Nat) : Text := List.replicate indent ' '

/-- Indents each line that has text; `fresh` tells that a line has just begun. -/
def indented (indent : Nat) (fresh : Bool) : Text → Text
  | [] => []
  | c :: rest =>
    if isBreak c then c :: indented indent true rest
    else (if fresh then lineStart indent else []) ++ c :: indented indent false rest

def literalHeader (t : Text) : Text :=
  (if beginsWith (fun c => isBlank c || isBreak c) t then ['2'] else []) ++
  match t.reverse with
  | [] => ['-']
  | [c] => if isBreak c then ['+'] else ['-']
  | c :: d :: _ => if !isBreak c then ['-'] else if isBreak d then ['+'] else []

def literal (indent : Nat) (t : Text) : Text :=
  "|" ++ literalHeader t ++ "\n" ++ indented indent true t

def single (indent : Nat) (t : Text) : Text :=
  "'" ++ indented indent false (t.flatMap fun c => if c = '\'' then ['\'', '\''] else [c]) ++
    (if endsWith isBreak t then lineStart indent else []) ++ "'"

/-- Hexadecimal digits in upper case, with zeros in front up to a width. -/
def hexDigits (width n : Nat) : Text :=
  let ds := (Text.digits 16 n).map Char.toUpper
  List.replicate (width - ds.length) '0' ++ ds

def escapeNames : List (Nat × Char) :=
  [(0x00, '0'), (0x07, 'a'), (0x08, 'b'), (0x09, 't'), (0x0a, 'n'), (0x0b, 'v'), (0x0c, 'f'),
   (0x0d, 'r'), (0x1b, 'e'), (0x22, '\x22'), (0x5c, '\\'), (0x85, 'N'), (0x2028, 'L'), (0x2029, 'P')]

def escape (c : Char) : Text :=
  match escapeNames.lookup c.toNat with
  | some name => ['\\', name]
  | none =>
    if !needsEscape c then [c]
    else if c.toNat ≤ 0xff then "\\x" ++ hexDigits 2 c.toNat
    else if c.toNat ≤ 0xffff then "\\u" ++ hexDigits 4 c.toNat
    else "\\U" ++ hexDigits 8 c.toNat

def double (t : Text) : Text := "\"" ++ t.flatMap escape ++ "\""

/-- A text as a scalar whose further lines are indented. -/
def render (indent : Nat) (t : Text) : Text :=
  match style t with
  | .plain => t
  | .single => single indent t
  | .double => double t
  | .literal | .folded => literal indent t

end Quoting
end EnumWire.Yaml
