import EnumWire.Text.Basic

/-! # Characters and their places

A stream is read as characters that know their line and column, and the number of bytes before them.
Line breaks that are distinguished are the line feed and the two separators of Unicode; the other
breaks are read as line feeds. -/
namespace EnumWire.Yaml

def isBreak (c : Char) : Bool := c = '\n' || c.toNat = 0x2028 || c.toNat = 0x2029

def isSpace (c : Char) : Bool := c = ' ' || c = '\t'

def isSeparator (c : Char) : Bool := isSpace c || isBreak c

/-- The characters of anchors, of tag handles and of the names of directives. -/
def isWord (c : Char) : Bool := c.isAlphanum || c = '_' || c = '-'

def isPrintable (c : Char) : Bool :=
  let n := c.toNat
  n = 0x0a || (0x20 ≤ n && n ≤ 0x7e) || (0xa0 ≤ n && n ≤ 0xfffd) || 0x10000 ≤ n

/-- What a stream may hold: printable characters, tabs and the breaks that are read as line feeds. -/
def isReadable (c : Char) : Bool :=
  isPrintable c || c = '\t' || c = '\r' || c.toNat = 0x85

def byteOrderMark : Char := '\ufeff'

/-! ### Places -/

structure Spot where
  char : Char
  /-- The number of bytes before the character. -/
  index : Nat
  line : Nat
  column : Nat
  deriving DecidableEq

abbrev Source := List Spot

namespace Source

/-- The characters of a text that begins at a place. -/
def place (index line column : Nat) : Text → Source
  | [] => []
  | '\r' :: '\n' :: rest => ⟨'\n', index, line, column⟩ :: place (index + 2) (line + 1) 0 rest
  | c :: rest =>
    let read := if c = '\r' || c.toNat = 0x85 then '\n' else c
    ⟨read, index, line, column⟩ ::
      if isBreak read then place (index + c.utf8Size) (line + 1) 0 rest
      else place (index + c.utf8Size) line (column + 1) rest

/-- Fails where the text holds a character that no stream may hold. -/
def ofText? (t : Text) : Option Source :=
  if t.all isReadable then some (place 0 0 0 t) else none

def text (source : Source) : Text := source.map Spot.char

/-- Whether a blank, a break or the end comes next. -/
def separatorAhead : Source → Bool
  | [] => true
  | s :: _ => isSeparator s.char

/-- Whether a break or the end comes next. -/
def breakAhead : Source → Bool
  | [] => true
  | s :: _ => isBreak s.char

def charAhead (p : Char → Bool) : Source → Bool
  | [] => false
  | s :: _ => p s.char

/-- Whether a line begins here with three times a character and nothing more. -/
def markerAhead (c : Char) (source : Source) : Bool :=
  source.head?.map Spot.column = some 0 && text (source.take 3) = [c, c, c] &&
    separatorAhead (source.drop 3)

/-- Whether a document starts or ends at this line. -/
def boundaryAhead (source : Source) : Bool :=
  markerAhead '-' source || markerAhead '.' source

def dropSpaces (source : Source) : Source := source.dropWhile fun s => isSpace s.char

def dropLine (source : Source) : Source := source.dropWhile fun s => !isBreak s.char

/-- The rest of a line may hold blanks and a comment; what comes after the break is left. -/
def endOfLine? (source : Source) : Option Source :=
  let rest := dropSpaces source
  let rest := if charAhead (· = '#') rest then dropLine rest else rest
  if breakAhead rest then some (rest.drop 1) else none

end Source
end EnumWire.Yaml
