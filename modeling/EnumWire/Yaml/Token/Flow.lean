import EnumWire.Yaml.Token

/-! # Scalars of one or more lines without a header

Quoted and plain scalars. The blanks and breaks between two words are folded: one line feed is a
blank, and of several the first is dropped. A gap goes into the room of its scalar as a whole, in a
quoted scalar also when no word follows. -/
namespace EnumWire.Yaml.Token

/-- What the blanks and breaks between two words stand for. -/
def folded (gap : Text) : Text :=
  match gap.filter isBreak with
  | [] => gap
  | ['\n'] => [' ']
  | '\n' :: more => more
  | breaks => breaks

/-- Takes a folded gap up; the blank for a lone line feed is put in like a word. -/
def fold (room : Room) (gap : Text) : Except Flaw Room :=
  if gap.filter isBreak = ['\n'] then .ok (room.push ' ') else room.join (folded gap)

/-- The rest of a scalar between single quotes, after a gap. -/
def singleQuoted (room : Room) (gap : Text) : Source → Reading Text
  | [] => (fold room gap).bind fun _ => .error .malformed
  | s :: rest =>
    if isSeparator s.char then singleQuoted room (gap ++ [s.char]) rest
    else (fold room gap).bind fun room =>
      if Source.boundaryAhead (s :: rest) then .error .malformed
      else if s.char = '\'' then
        match rest with
        | [] => .ok (folded gap, [])
        | t :: more =>
          if t.char = '\'' then (singleQuoted (room.push '\'') [] more).after (folded gap ++ ['\''])
          else .ok (folded gap, t :: more)
      else (singleQuoted (room.push s.char) [] rest).after (folded gap ++ [s.char])

inductive DoubleState where
  /-- Between words, or in one if there is no gap; an escaped break has begun some gaps. -/
  | words (escaped : Bool) (gap : Text)
  /-- In the number of a character; `more` digits follow the next one. -/
  | code (more : Nat) (number : Nat)

def escapedGap (escaped : Bool) (gap : Text) : Text :=
  if escaped then gap.filter isBreak else folded gap

def foldEscaped (room : Room) (escaped : Bool) (gap : Text) : Except Flaw Room :=
  if escaped then room.join (gap.filter isBreak) else fold room gap

/-- The characters that stand for others behind a backslash. -/
def escapes : List (Char × Char) :=
  [('0', '\x00'), ('a', '\x07'), ('b', '\x08'), ('t', '\t'), ('\t', '\t'), ('n', '\n'),
   ('v', '\x0b'), ('f', '\x0c'), ('r', '\r'), ('e', '\x1b'), (' ', ' '), ('\x22', '\x22'),
   ('/', '/'), ('\\', '\\'), ('N', '\u0085'), ('_', '\u00a0'), ('L', '\u2028'), ('P', '\u2029')]

/-- How many digits follow the first one of a character's number. -/
def codeLength? (c : Char) : Option Nat :=
  if c = 'x' then some 1 else if c = 'u' then some 3 else if c = 'U' then some 7 else none

/-- The rest of a scalar between double quotes. -/
def doubleQuoted (room : Room) : DoubleState → Source → Reading Text
  | .code _ _, [] => .error .malformed
  | .words escaped gap, [] => (foldEscaped room escaped gap).bind fun _ => .error .malformed
  | .code more number, s :: rest =>
    match Scalar.digit? 16 s.char, more with
    | none, _ => .error .malformed
    | some d, 0 =>
      let number := 16 * number + d
      if number.isValidChar then
        (doubleQuoted (room.push (Char.ofNat number)) (.words false []) rest).after
          [Char.ofNat number]
      else .error .malformed
    | some d, more + 1 => doubleQuoted room (.code more (16 * number + d)) rest
  | .words escaped gap, s :: rest =>
    if isSeparator s.char then doubleQuoted room (.words escaped (gap ++ [s.char])) rest
    else (foldEscaped room escaped gap).bind fun room =>
      if Source.boundaryAhead (s :: rest) then .error .malformed
      else if s.char = '\x22' then .ok (escapedGap escaped gap, rest)
      else if s.char = '\\' then
        match rest with
        | [] => .error .malformed
        | t :: more =>
          if isBreak t.char then
            (doubleQuoted room (.words true []) more).after (escapedGap escaped gap)
          else
            match escapes.lookup t.char, codeLength? t.char with
            | some c, _ =>
              (doubleQuoted (room.push c) (.words false []) more).after (escapedGap escaped gap ++ [c])
            | none, some n => (doubleQuoted room (.code n 0) more).after (escapedGap escaped gap)
            | none, none => .error .malformed
      else
        (doubleQuoted (room.push s.char) (.words false []) rest).after
          (escapedGap escaped gap ++ [s.char])

/-! ### Plain scalars -/

def isFlowIndicator (c : Char) : Bool := ",[]\x7b\x7d".toList.contains c

structure Plain where
  text : Text
  /-- The breaks after the scalar belong to no text: the next token begins a line. -/
  endsLine : Bool
  deriving DecidableEq

/-- The rest of a plain scalar after a gap. `margin` is the least column of its further lines. -/
def plain (flow : Bool) (margin : Nat) (room : Room) (gap : Text) : Source → Reading Plain
  | [] => .ok (⟨[], gap.any isBreak⟩, [])
  | s :: rest =>
    if isSeparator s.char then
      if s.char = '\t' && gap.any isBreak && s.column < margin then .error .malformed
      else plain flow margin room (gap ++ [s.char]) rest
    else if gap ≠ [] &&
        ((!flow && s.column < margin) || Source.boundaryAhead (s :: rest) || s.char = '#') then
      .ok (⟨[], gap.any isBreak⟩, s :: rest)
    else if flow && s.char = ':' && Source.charAhead (fun c => isFlowIndicator c || c = '?') rest then
      .error .malformed
    else if (s.char = ':' && Source.separatorAhead rest) || (flow && isFlowIndicator s.char) then
      .ok (⟨[], gap.any isBreak⟩, s :: rest)
    else (fold room gap).bind fun room =>
      (plain flow margin (room.push s.char) [] rest).answer fun p =>
        { p with text := folded gap ++ s.char :: p.text }

end EnumWire.Yaml.Token
