import EnumWire.Wire.Lookahead

/-! # Runs of reads over one input

A session is an input with two stacks: the limits to restore and the positions to go back to. Each
stack is used last in, first out; the two may be interleaved in any way, and a run goes on after a
read that failed. -/
namespace EnumWire.Wire

inductive ReadOp where
  | readTag
  | readByte
  | readVarint32
  | readVarint64
  | readInt32
  | skipBytes (count : Nat)
  | skipField (tag : Tag)
  | pushLimit (length : Nat)
  | popLimit
  | mark
  | rewind
  | countUnpacked (tag : Tag)
  | countPacked

/-- What a read operation answers. -/
inductive Answer where
  | nothing
  | byte (b : UInt8)
  | word32 (v : UInt32)
  | word64 (v : UInt64)
  | int32 (v : Int32)
  /-- A position, a limit or a count. -/
  | offset (n : Nat)

structure Session where
  input : Input
  limits : List Nat := []
  marks : List Nat := []

namespace Session

/-- Takes over the input after a read and wraps its answer. -/
def after {α : Type} (session : Session) (outcome : Outcome α) (wrap : α → Answer) :
    Except DecodeError Answer × Session :=
  (outcome.1.map wrap, { session with input := outcome.2 })

/-- `none` where there is no limit to restore or no mark to go back to. -/
def step (session : Session) : ReadOp → Option (Except DecodeError Answer × Session)
  | .readTag => some (session.after session.input.readTag .word32)
  | .readByte => some (session.after session.input.readByte .byte)
  | .readVarint32 => some (session.after session.input.readVarint32 .word32)
  | .readVarint64 => some (session.after session.input.readVarint64 .word64)
  | .readInt32 => some (session.after session.input.readInt32 .int32)
  | .skipBytes count => some (session.after (session.input.skipBytes count) fun _ => .nothing)
  | .skipField tag => some (session.after (session.input.skipField tag) fun _ => .nothing)
  | .pushLimit length =>
    match session.input.pushLimit length with
    | (.ok old, s) => some (.ok (.offset old), { session with input := s, limits := old :: session.limits })
    | (.error e, s) => some (.error e, { session with input := s })
  | .popLimit =>
    match session.limits with
    | [] => none
    | limit :: limits =>
      some (.ok (.offset limit), { session with input := session.input.popLimit limit, limits := limits })
  | .mark =>
    some (.ok (.offset session.input.pos), { session with marks := session.input.pos :: session.marks })
  | .rewind =>
    match session.marks with
    | [] => none
    | position :: marks =>
      some (.ok (.offset position), { session with input := session.input.rewind position, marks := marks })
  | .countUnpacked tag => some (session.after (session.input.countUnpacked tag) .offset)
  | .countPacked => some (session.after session.input.countPacked .offset)

/-- The sessions after each operation of a run, with what it answered. -/
def run (session : Session) : List ReadOp → Option (List (Except DecodeError Answer × Session))
  | [] => some []
  | op :: ops =>
    (session.step op).bind fun (answer, next) => (run next ops).map ((answer, next) :: ·)

end Session
end EnumWire.Wire
