import EnumWire.Yaml.Token.Block
import EnumWire.Yaml.Token.Flow
import EnumWire.Yaml.Token.Tag

/-! # The tokens of a stream

Columns open and close block collections, and a colon makes a key of what stands before it on its
line. The start of a mapping and the mark of its key are inserted before that key once its colon is
found, so a token that may still become a key waits for what follows it. -/
namespace EnumWire.Yaml

/-- What may turn out to be a key. -/
structure KeyCandidate where
  /-- The number of tokens before it. -/
  place : Nat
  index : Nat
  line : Nat
  /-- The column where it begins. -/
  column : Nat
  /-- It stands where the enclosing mapping has its keys, so that nothing else can come of it. -/
  required : Bool
  deriving DecidableEq

/-- A key ends on its line, within 1024 bytes. -/
def KeyCandidate.reaches (k : KeyCandidate) : Source → Bool
  | [] => true
  | s :: _ => k.line = s.line && s.index ≤ k.index + 1024

/-- The numbers of the anchor names so far. -/
abbrev AnchorNumbers := List (Text × Nat)

/-- Gives a name its next number, also where it has one. -/
def AnchorNumbers.define (numbers : AnchorNumbers) (name : Text) : AnchorNumbers :=
  (name, numbers.length) :: numbers.filter fun other => other.1 ≠ name

structure Scanner where
  /-- How many tokens have been given out. -/
  given : Nat := 0
  /-- The tokens after them, before which others may still come. -/
  waiting : List Token := []
  /-- The columns of the open block collections, innermost first. -/
  indents : List Nat := []
  /-- The candidate in the innermost flow collection, or outside of all. -/
  candidate : Option KeyCandidate := none
  /-- The candidates around each open flow collection, innermost first. -/
  enclosing : List (Option KeyCandidate) := []
  keyAllowed : Bool := true
  /-- The anchors of the document so far. -/
  anchors : AnchorNumbers := []

namespace Scanner

def inFlow (s : Scanner) : Bool := !s.enclosing.isEmpty

/-- The least column of further lines in the innermost block collection. -/
def margin (s : Scanner) : Nat :=
  match s.indents with
  | [] => 0
  | column :: _ => column + 1

/-- The number of tokens so far. -/
def count (s : Scanner) : Nat := s.given + s.waiting.length

/-- Puts a token at a place among those that wait. -/
def insert (s : Scanner) (place : Nat) (t : Token) : Scanner :=
  { s with waiting := s.waiting.insertIdx (place - s.given) t }

def emit (s : Scanner) (t : Token) : Scanner := { s with waiting := s.waiting ++ [t] }

/-- Opens a block collection whose start has a place among the tokens, unless one at the column is
open. -/
def openBlock (s : Scanner) (column place : Nat) (t : Token) : Scanner :=
  if s.inFlow || column < s.margin then s
  else { s with indents := column :: s.indents }.insert place t

/-- Closes the block collections whose column is not left of a test. -/
def closeBlocks (s : Scanner) (isOutside : Nat → Bool) : Scanner :=
  if s.inFlow then s
  else { s with
    indents := s.indents.dropWhile isOutside
    waiting := s.waiting ++ (s.indents.takeWhile isOutside).map fun _ => .blockEnd }

/-! ### Candidates for keys -/

def candidates (s : Scanner) : List KeyCandidate :=
  (s.candidate :: s.enclosing).filterMap fun k => k

/-- Gives the candidates up that do not reach to here; a required one was missing its colon. -/
def dropPassed (s : Scanner) (source : Source) : Except Flaw Scanner :=
  if s.candidates.any fun k => k.required && !k.reaches source then .error .malformed
  else
    let keep (k : Option KeyCandidate) := k.filter fun k => k.reaches source
    .ok { s with candidate := keep s.candidate, enclosing := s.enclosing.map keep }

/-- The number of tokens before which no other can come. -/
def settled (s : Scanner) : Nat := s.candidates.foldl (fun least k => min least k.place) s.count

/-- Gives out the tokens before which no other can come. -/
def giveOut (s : Scanner) : List Token × Scanner :=
  (s.waiting.take (s.settled - s.given),
    { s with given := s.settled, waiting := s.waiting.drop (s.settled - s.given) })

/-- Gives a candidate up; a required one was missing its colon. -/
def dropCandidate (s : Scanner) : Except Flaw Scanner :=
  if (s.candidate.map KeyCandidate.required).getD false then .error .malformed
  else .ok { s with candidate := none }

/-- What begins here may be a key, if keys are allowed. -/
def markCandidate (s : Scanner) (spot : Spot) : Except Flaw Scanner :=
  if s.keyAllowed then
    s.dropCandidate.map fun s =>
      { s with candidate := some {
          place := s.count, index := spot.index, line := spot.line, column := spot.column,
          required := !s.inFlow && s.indents.head? = some spot.column } }
  else .ok s

/-! ### Tokens without text -/

/-- Ends every block at a document boundary or at the end. -/
def endDocument (s : Scanner) : Except Flaw Scanner :=
  (s.closeBlocks fun _ => true).dropCandidate.map fun s => { s with keyAllowed := false }

def openFlow (s : Scanner) (spot : Spot) (t : Token) : Except Flaw Scanner :=
  (s.markCandidate spot).map fun s =>
    { s with candidate := none, enclosing := s.candidate :: s.enclosing, keyAllowed := true }.emit t

def closeFlow (s : Scanner) (t : Token) : Except Flaw Scanner :=
  s.dropCandidate.map fun s =>
    match s.enclosing with
    | [] => { s with keyAllowed := false }.emit t
    | candidate :: enclosing =>
      { s with candidate := candidate, enclosing := enclosing, keyAllowed := false }.emit t

def comma (s : Scanner) : Except Flaw Scanner :=
  s.dropCandidate.map fun s => { s with keyAllowed := true }.emit .comma

/-- Outside of flow collections, a dash, a question mark or a lone colon needs to stand where a key
could, and opens a collection at its column. -/
def openEntry (s : Scanner) (spot : Spot) (t : Token) : Except Flaw Scanner :=
  if s.inFlow then .ok s
  else if s.keyAllowed then .ok (s.openBlock spot.column s.count t)
  else .error .malformed

def dash (s : Scanner) (spot : Spot) : Except Flaw Scanner :=
  (s.openEntry spot .blockSequence).bind fun s =>
    s.dropCandidate.map fun s => { s with keyAllowed := true }.emit .dash

def explicitKey (s : Scanner) (spot : Spot) : Except Flaw Scanner :=
  (s.openEntry spot .blockMapping).bind fun s =>
    s.dropCandidate.map fun s => { s with keyAllowed := !s.inFlow }.emit .key

def colon (s : Scanner) (spot : Spot) : Except Flaw Scanner :=
  match s.candidate with
  | none =>
    (s.openEntry spot .blockMapping).map fun s => { s with keyAllowed := !s.inFlow }.emit .value
  | some k =>
    let s := { s with candidate := none, keyAllowed := false }.insert k.place .key
    .ok ((s.openBlock k.column k.place .blockMapping).emit .value)

/-! ### Tokens with text -/

/-- Puts a token that may be, or begin, a key. -/
def keyToken (s : Scanner) (spot : Spot) (reading : Reading Token) : Reading Scanner :=
  (s.markCandidate spot).bind fun s =>
    reading.answer fun t => { s with keyAllowed := false }.emit t

/-- An anchor takes the number of anchor names that are known where it stands. -/
def anchorToken (s : Scanner) (spot : Spot) (rest : Source) : Reading Scanner :=
  (Token.anchorName rest).bind fun (name, after) =>
    (s.keyToken spot (.ok (.anchor s.anchors.length, after))).answer fun s =>
      { s with anchors := s.anchors.define name }

/-- An alias takes the number that its name has where it stands; if it has none, the flaw is for
whoever reads the token. -/
def aliasToken (s : Scanner) (spot : Spot) (rest : Source) : Reading Scanner :=
  s.keyToken spot ((Token.anchorName rest).answer fun name =>
    match s.anchors.lookup name with
    | some n => .alias n
    | none => .flaw .malformed)

def blockToken (s : Scanner) (style : Style) (rest : Source) : Reading Scanner :=
  s.dropCandidate.bind fun s =>
    (Token.block style s.margin rest).answer fun t => { s with keyAllowed := true }.emit t

def plainToken (s : Scanner) (spot : Spot) (source : Source) : Reading Scanner :=
  (s.markCandidate spot).bind fun s =>
    (Token.plain s.inFlow s.margin {} [] source).answer fun p =>
      { s with keyAllowed := p.endsLine }.emit (.scalar .plain p.text)

/-- Whether a plain scalar may begin with a character before others. -/
def beginsPlain (flow : Bool) (c : Char) (rest : Source) : Bool :=
  !(isSeparator c || "-?:,[]\x7b\x7d#&*!|>'\x22%@\x60".toList.contains c) ||
    (c = '-' && !Source.charAhead isSpace rest) ||
    (!flow && (c = '?' || c = ':') && !Source.separatorAhead rest)

/-- Takes the token that begins with a character. -/
def take (s : Scanner) (spot : Spot) (rest : Source) : Reading Scanner :=
  let c := spot.char
  let source := spot :: rest
  let s := s.closeBlocks fun column => spot.column < column
  let here (s : Except Flaw Scanner) : Reading Scanner := s.map fun s => (s, rest)
  if c = '%' && spot.column = 0 then
    s.endDocument.bind fun s => (Token.directive rest).answer s.emit
  else if Source.markerAhead '-' source then
    s.endDocument.map fun s => ({ s with anchors := [] }.emit .documentStart, source.drop 3)
  else if Source.markerAhead '.' source then
    s.endDocument.map fun s => (s.emit .documentEnd, source.drop 3)
  else if c = '[' then here (s.openFlow spot .flowSequence)
  else if c = '\x7b' then here (s.openFlow spot .flowMapping)
  else if c = ']' then here (s.closeFlow .flowSequenceEnd)
  else if c = '\x7d' then here (s.closeFlow .flowMappingEnd)
  else if c = ',' then here s.comma
  else if c = '-' && Source.separatorAhead rest then here (s.dash spot)
  else if c = '?' && (s.inFlow || Source.separatorAhead rest) then here (s.explicitKey spot)
  else if c = ':' && (s.inFlow || Source.separatorAhead rest) then here (s.colon spot)
  else if c = '*' then s.aliasToken spot rest
  else if c = '&' then s.anchorToken spot rest
  else if c = '!' then s.keyToken spot (Token.tagToken s.inFlow source)
  else if c = '|' && !s.inFlow then s.blockToken .literal rest
  else if c = '>' && !s.inFlow then s.blockToken .folded rest
  else if c = '\'' then s.keyToken spot ((Token.singleQuoted {} [] rest).answer (.scalar .single))
  else if c = '\x22' then
    s.keyToken spot ((Token.doubleQuoted {} (.words false []) rest).answer (.scalar .double))
  else if beginsPlain s.inFlow c rest then s.plainToken spot source
  else .error .malformed

/-- Blanks, comments and breaks before the next token. A break allows a key outside of flow
collections, and where a key is allowed there a tab is no blank. A byte order mark may begin a line
of the gap. -/
def skipGap (flow : Bool) : (keyAllowed comment : Bool) → Source → Bool × Source
  | keyAllowed, _, [] => (keyAllowed, [])
  | keyAllowed, comment, s :: rest =>
    if isBreak s.char then skipGap flow (keyAllowed || !flow) false rest
    else if comment || s.char = ' ' || (s.char = '\t' && (flow || !keyAllowed)) ||
        (s.char = byteOrderMark && s.column = 0) then
      skipGap flow keyAllowed comment rest
    else if s.char = '#' then skipGap flow keyAllowed true rest
    else (keyAllowed, s :: rest)

/-- Takes the next token and what it brings about, or ends the stream, of which then nothing is
left. -/
def step (s : Scanner) (source : Source) : Except Flaw (Scanner × Option Source) :=
  let (keyAllowed, source) := skipGap s.inFlow s.keyAllowed false source
  ({ s with keyAllowed := keyAllowed }.dropPassed source).bind fun s =>
    match source with
    | [] => s.endDocument.map fun s => (s, none)
    | spot :: rest =>
      (s.take spot rest).bind fun (s, rest) => (s.dropPassed rest).map fun s => (s, some rest)

/-- The rest of the tokens of a stream. A flaw comes after the tokens that are given out before it
is found. -/
def run : Nat → Scanner → Source → List Token
  | 0, _, _ => [.flaw .malformed]
  | fuel + 1, s, source =>
    match s.step source with
    | .error flaw => [.flaw flaw]
    | .ok (s, none) => s.waiting
    | .ok (s, some rest) =>
      let (tokens, s) := s.giveOut
      tokens ++ run fuel s rest

end Scanner

/-- The tokens of a stream; each takes at least one character. -/
def Token.ofSource (source : Source) : List Token :=
  Scanner.run (source.length + 1) {} source

end EnumWire.Yaml
