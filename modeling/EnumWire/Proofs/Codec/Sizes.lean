import EnumWire.Codec.Writing
import EnumWire.Proofs.Wire.Written

/-! # Sizes and writes agree

The first pass computes what the second one writes, slot by slot and byte by byte: every tag has the
size of the tag of a varint, and a payload has the length that stands before it. -/
namespace EnumWire.Codec

open EnumWire.Wire

/-! ### Slots -/

def elementsBytes (values : List Int32) : Bytes := values.flatMap Varint.encodeInt32

theorem length_elementsBytes (values : List Int32) :
    (elementsBytes values).length = Slot.elementsSize values := by
  induction values with
  | nil => rfl
  | cons v values ih =>
    rw [elementsBytes, List.flatMap_cons, List.length_append, Varint.length_encodeInt32,
      Slot.elementsSize]
    exact congrArg (Varint.int32Size v + ·) ih

namespace Slot

/-- What is written for a slot, with the length that the first pass leaves for it. -/
def bytes (slot : Slot) : Bytes := (slot.writes slot.payloadSize).flatMap Write.bytes

theorem bytes_singular (n : UInt32) (default value : Int32) :
    (singular n default value).bytes =
      if value = default then []
      else Varint.encode (Tag.make n .varint).toUInt64 ++ Varint.encodeInt32 value := by
  simp only [bytes, writes]
  split
  · rfl
  · simp [Write.bytes]

theorem bytes_repeated (n : UInt32) (values : List Int32) :
    (Slot.repeated n values).bytes = values.flatMap fun v =>
      Varint.encode (Tag.make n .varint).toUInt64 ++ Varint.encodeInt32 v := by
  simp [bytes, writes, List.flatMap_assoc, Write.bytes]

theorem bytes_repeated_cons (n : UInt32) (v : Int32) (values : List Int32) :
    (Slot.repeated n (v :: values)).bytes =
      Varint.encode (Tag.make n .varint).toUInt64 ++
        (Varint.encodeInt32 v ++ (Slot.repeated n values).bytes) := by
  rw [bytes_repeated, bytes_repeated, List.flatMap_cons, List.append_assoc]

theorem bytes_packed (n : UInt32) (values : List Int32) :
    (packed n values).bytes =
      if values = [] then []
      else Varint.encode (Tag.make n .lengthDelimited).toUInt64 ++
        Varint.encode (UInt32.ofNat (elementsSize values)).toUInt64 ++ elementsBytes values := by
  simp only [bytes, writes, payloadSize]
  split
  · rfl
  · simp [Write.bytes, elementsBytes, List.flatMap_map]

theorem length_bytes_repeated (n : UInt32) (values : List Int32) :
    (Slot.repeated n values).bytes.length = elementsSize values + Tag.size n * values.length := by
  rw [bytes_repeated]
  induction values with
  | nil => rfl
  | cons v values ih =>
    rw [List.flatMap_cons, List.length_append, List.length_append, Tag.length_encode,
      Varint.length_encodeInt32, ih, elementsSize, List.length_cons, Nat.mul_succ]
    omega

theorem length_bytes (slot : Slot) : slot.bytes.length = slot.size := by
  cases slot with
  | singular n default value =>
    rw [bytes_singular, size]
    split
    · rfl
    · rw [List.length_append, Tag.length_encode, Varint.length_encodeInt32]
  | «repeated» n values =>
    rw [length_bytes_repeated, size]
    split
    · rename_i hnil
      rw [hnil]
      rfl
    · rfl
  | packed n values =>
    rw [bytes_packed, size]
    split
    · rfl
    · rw [List.length_append, List.length_append, Tag.length_encode, ← Varint.size32_eq,
        length_elementsBytes]
      dsimp only
      omega

end Slot

/-! ### Messages -/

namespace Content

theorem writes_sizes (content : Content) :
    content.writes content.sizes.payloads =
      content.flatMap fun slot => slot.writes slot.payloadSize := by
  rw [writes, sizes, List.zipWith_map_left, List.zipWith_self, List.flatMap]

theorem bytes_write (out : Output) (content : Content) :
    (content.write out content.sizes.payloads).bytes = out.bytes ++ content.flatMap Slot.bytes := by
  rw [write, Output.bytes_writeAll, writes_sizes, List.flatMap_assoc]
  rfl

theorem encode_eq (content : Content) : content.encode = content.flatMap Slot.bytes :=
  bytes_write {} content

theorem length_encode (content : Content) : content.encode.length = content.size := by
  rw [encode_eq]
  induction content with
  | nil => rfl
  | cons slot rest ih => rw [List.flatMap_cons, List.length_append, Slot.length_bytes, ih, size]

end Content
end EnumWire.Codec
