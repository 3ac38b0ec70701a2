import EnumWire.Yaml.Source

/-! # The room for the text of a scalar

A text is collected in a room of bytes. The room doubles before a character when five bytes or fewer
would be left; a gap between two words is put in as a whole, for which the room does not grow. -/
namespace EnumWire.Yaml

/-- Why a stream cannot be read. -/
inductive Flaw where
  /-- It does not follow the grammar, or does not hold what its reader expects. -/
  | malformed
  /-- A gap between two words does not fit the room of its scalar. -/
  | overflow
  deriving DecidableEq

def Flaw.ofOption {α : Type} : Option α → Except Flaw α
  | some a => .ok a
  | none => .error .malformed

/-- The bytes in use, and the bytes there are. -/
structure Room where
  used : Nat := 0
  capacity : Nat := 16
  deriving DecidableEq

namespace Room

/-- Makes room for one character. -/
def grow (room : Room) : Room :=
  if room.capacity ≤ room.used + 5 then { room with capacity := 2 * room.capacity } else room

def push (room : Room) (c : Char) : Room :=
  let room := room.grow
  { room with used := room.used + c.utf8Size }

def pushAll (room : Room) (t : Text) : Room := t.foldl push room

def join (room : Room) (gap : Text) : Except Flaw Room :=
  if room.capacity < room.used + Text.utf8Size gap then .error .overflow
  else .ok { room with used := room.used + Text.utf8Size gap }

end Room
end EnumWire.Yaml
