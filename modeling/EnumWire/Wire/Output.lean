import EnumWire.Wire.Varint

/-! # Writing: a buffer that grows at its end

Every write appends bytes that depend on the written value alone, so a run of writes is the
concatenation of what each writes. -/
namespace EnumWire.Wire

inductive Write where
  | byte (b : UInt8)
  | varint32 (v : UInt32)
  | varint64 (v : UInt64)
  /-- A signed integer without a tag. -/
  | int32 (v : Int32)
  | tag (number : UInt32) (wireType : WireType)
  /-- A tag and the signed integer that it announces. -/
  | taggedInt32 (number : UInt32) (v : Int32)

def Write.bytes : Write → Bytes
  | .byte b => [b]
  | .varint32 v => Varint.encode v.toUInt64
  | .varint64 v => Varint.encode v
  | .int32 v => Varint.encodeInt32 v
  | .tag number wireType => Varint.encode (Tag.make number wireType).toUInt64
  | .taggedInt32 number v => Varint.encode (Tag.make number .varint).toUInt64 ++ Varint.encodeInt32 v

structure Output where
  bytes : Bytes := []

namespace Output

def size (out : Output) : Nat := out.bytes.length

def isEmpty (out : Output) : Bool := out.bytes.isEmpty

def write (out : Output) (w : Write) : Output :=
  { bytes := out.bytes ++ w.bytes }

def writeAll (out : Output) (ws : List Write) : Output :=
  ws.foldl write out

@[simp] theorem bytes_write (out : Output) (w : Write) : (out.write w).bytes = out.bytes ++ w.bytes :=
  rfl

theorem bytes_writeAll (out : Output) (ws : List Write) :
    (out.writeAll ws).bytes = out.bytes ++ ws.flatMap Write.bytes := by
  induction ws generalizing out with
  | nil => simp [writeAll]
  | cons w ws ih =>
    have := ih (out.write w)
    simp only [writeAll, List.foldl_cons] at this ⊢
    simp [this]

end Output
end EnumWire.Wire
