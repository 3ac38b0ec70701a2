import EnumWire.Yaml.Token

/-! # Literal and folded blocks

A header tells what becomes of the breaks at the end and how deep the lines are indented; without a
depth the first line with text decides. -/
namespace EnumWire.Yaml.Token

inductive Chomping where
  | strip
  | clip
  | keep
  deriving DecidableEq

structure BlockHeader where
  chomping : Chomping := .clip
  /-- How far the lines are indented beyond the collection that holds the block. -/
  depth : Option Nat := none
  deriving DecidableEq

def chomping? (c : Char) : Option Chomping :=
  if c = '+' then some .keep else if c = '-' then some .strip else none

/-- Reads each part of a header at most once, in any order; a depth is not zero. -/
def blockHeader (header : BlockHeader) : Source → Reading BlockHeader
  | [] => .ok (header, [])
  | s :: rest =>
    if s.char.isDigit && header.depth = none then
      if s.char = '0' then .error .malformed
      else blockHeader { header with depth := some (s.char.toNat - 48) } rest
    else
      match chomping? s.char, header.chomping with
      | some chomping, .clip => blockHeader { header with chomping := chomping } rest
      | _, _ => .ok (header, s :: rest)

/-- Blank lines and the indentation after them. Without a known indentation the second part of the
answer is the widest one that was seen. -/
def blankLines (indent : Option Nat) (widest : Nat) : Source → Reading (Text × Nat)
  | [] => .ok (([], widest), [])
  | s :: rest =>
    let outside := (indent.map fun n => decide (s.column < n)).getD true
    if s.char = ' ' && outside then blankLines indent widest rest
    else if s.char = '\t' && outside then .error .malformed
    else
      let widest := max widest s.column
      if isBreak s.char then
        (blankLines indent widest rest).answer fun (breaks, widest) => (s.char :: breaks, widest)
      else .ok (([], widest), s :: rest)

/-- What is known of a block before a line of it. -/
structure BlockState where
  room : Room := {}
  lastBreak : Text := []
  /-- The breaks of the blank lines after the last break. -/
  blankLines : Text := []
  /-- Whether the line before began with a blank. -/
  deep : Bool := false
  deriving DecidableEq

namespace BlockState

/-- The break between two lines is a blank when the block is folded and neither of them begins with
a blank, and it is dropped if there are blank lines between them. -/
def folds (state : BlockState) (style : Style) (deep : Bool) : Bool :=
  style = .folded && state.lastBreak = ['\n'] && !state.deep && !deep

/-- What stands between the line before and the next one. -/
def between (state : BlockState) (style : Style) (deep : Bool) : Text :=
  if state.folds style deep then if state.blankLines = [] then [' '] else state.blankLines
  else state.lastBreak ++ state.blankLines

/-- Takes up what stands before a line, and the line. -/
def takeLine (state : BlockState) (style : Style) (deep : Bool) (line : Text) : Except Flaw Room :=
  if state.folds style deep && state.blankLines = [] then .ok (state.room.pushAll (' ' :: line))
  else (state.room.join (state.between style deep)).map fun room => room.pushAll line

/-- What is kept of the breaks at the end. -/
def ending (state : BlockState) : Chomping → Text
  | .strip => []
  | .clip => state.lastBreak
  | .keep => state.lastBreak ++ state.blankLines

end BlockState

/-- The rest of a block from the beginning of a line. -/
def blockLines (style : Style) (chomping : Chomping) (indent : Nat) :
    Nat → BlockState → Source → Reading Text
  | 0, _, _ => .error .malformed
  | fuel + 1, state, source =>
    if source.head?.map Spot.column = some indent then
      let deep := Source.charAhead isSpace source
      let line := Source.text (source.takeWhile fun s => !isBreak s.char)
      (state.takeLine style deep line).bind fun room =>
        let rest := Source.dropLine source
        (blankLines (some indent) 0 (rest.drop 1)).bind fun ((blanks, _), after) =>
          let next : BlockState := {
            room := room, lastBreak := Source.text (rest.take 1), blankLines := blanks, deep := deep }
          (blockLines style chomping indent fuel next after).after (state.between style deep ++ line)
    else
      (state.room.join (state.ending chomping)).map fun _ => (state.ending chomping, source)

/-- A block after its indicator; `margin` is the least column of its lines, and one less is the
column of the collection that holds it. -/
def block (style : Style) (margin : Nat) (source : Source) : Reading Token :=
  (blockHeader {} source).bind fun (header, rest) =>
    (Flaw.ofOption (Source.endOfLine? rest)).bind fun rest =>
      let known := header.depth.map (margin - 1 + ·)
      (blankLines known 0 rest).bind fun ((blanks, widest), rest) =>
        let indent := known.getD (max widest (max margin 1))
        let state : BlockState := { blankLines := blanks }
        (blockLines style header.chomping indent (rest.length + 1) state rest).answer (.scalar style)

end EnumWire.Yaml.Token
