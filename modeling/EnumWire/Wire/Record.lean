import EnumWire.Wire.Varint

/-! # Records: the grammar of a message

A message is a sequence of records, each a tag and what its wire type announces. Tags and lengths are
varints of any length up to the longest, of which the low 32 bits count. Groups are left out. -/
namespace EnumWire.Wire

namespace Varint

/-- Whether bytes are one varint: the last byte ends it and no byte before does. -/
def isEncoding (bytes : Bytes) : Bool :=
  bytes.length ≤ maxSize && bytes.getLast?.any (fun b => b < 0x80) &&
    bytes.dropLast.all fun b => 0x80 ≤ b

/-- The number that the groups of seven bits stand for, the lowest first. -/
def value (bytes : Bytes) : Nat :=
  bytes.foldr (fun b higher => b.toNat % 128 + 128 * higher) 0

/-- The low 32 bits of a varint. -/
def word32 (bytes : Bytes) : UInt32 := UInt32.ofNat (value bytes)

end Varint

/-- The bytes of what follows a tag. -/
inductive Payload where
  | varint (bytes : Bytes)
  | fixed64 (bytes : Bytes)
  | lengthDelimited (length content : Bytes)
  | fixed32 (bytes : Bytes)
  deriving DecidableEq

namespace Payload

def wireType : Payload → WireType
  | .varint _ => .varint
  | .fixed64 _ => .fixed64
  | .lengthDelimited _ _ => .lengthDelimited
  | .fixed32 _ => .fixed32

def bytes : Payload → Bytes
  | .varint bytes => bytes
  | .fixed64 bytes => bytes
  | .lengthDelimited length content => length ++ content
  | .fixed32 bytes => bytes

def isWellFormed : Payload → Bool
  | .varint bytes => Varint.isEncoding bytes
  | .fixed64 bytes => bytes.length = 8
  | .lengthDelimited length content =>
    Varint.isEncoding length && decide (content.length = (Varint.word32 length).toNat)
  | .fixed32 bytes => bytes.length = 4

end Payload

structure Record where
  /-- The bytes of the tag. -/
  head : Bytes
  payload : Payload
  deriving DecidableEq

namespace Record

def tag (record : Record) : Tag := Varint.word32 record.head

def bytes (record : Record) : Bytes := record.head ++ record.payload.bytes

/-- Whether the tag is a varint with a field number and the wire type of a well-formed payload. -/
def isWellFormed (record : Record) : Bool :=
  Varint.isEncoding record.head && record.tag.fieldNumber ≠ 0 &&
    record.tag.wireType? = some record.payload.wireType && record.payload.isWellFormed

end Record
end EnumWire.Wire
