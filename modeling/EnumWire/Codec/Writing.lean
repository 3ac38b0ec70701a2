import EnumWire.Codec.Slot
import EnumWire.Wire.Output

/-! # Writing messages

Two passes over the slots: the first computes the size of the message and the length of each packed
payload, the second writes and takes the lengths from the first. What equals its default or is empty
is left out by both. -/
namespace EnumWire.Codec

open EnumWire.Wire

namespace Slot

def elementsSize : List Int32 → Nat
  | [] => 0
  | v :: vs => Varint.int32Size v + elementsSize vs

/-- The length of a packed payload, without its tag and length prefix. -/
def payloadSize : Slot → Nat
  | .packed _ values => elementsSize values
  | _ => 0

def size : Slot → Nat
  | .singular n default value =>
    if value = default then 0 else Tag.size n + Varint.int32Size value
  | .repeated n values =>
    if values = [] then 0 else elementsSize values + Tag.size n * values.length
  | .packed n values =>
    if values = [] then 0
    else
      let length := elementsSize values
      length + Tag.size n + Varint.size32 (UInt32.ofNat length)

/-- The writes of a slot; `payload` is the length of its payload, if it has one. -/
def writes (payload : Nat) : Slot → List Write
  | .singular n default value =>
    if value = default then [] else [.varint32 (Tag.make n .varint), .int32 value]
  | .repeated n values => values.flatMap fun v => [.varint32 (Tag.make n .varint), .int32 v]
  | .packed n values =>
    if values = [] then []
    else
      .varint32 (Tag.make n .lengthDelimited) :: .varint32 (UInt32.ofNat payload) ::
        values.map .int32

end Slot

/-- What the first pass leaves for the second: a payload length for each slot. -/
structure Sizes where
  total : Nat
  payloads : List Nat
  deriving DecidableEq

namespace Content

def size : Content → Nat
  | [] => 0
  | slot :: rest => slot.size + size rest

def sizes (content : Content) : Sizes := ⟨content.size, content.map Slot.payloadSize⟩

def writes (content : Content) (payloads : List Nat) : List Write :=
  (payloads.zipWith Slot.writes content).flatten

def write (out : Output) (content : Content) (payloads : List Nat) : Output :=
  out.writeAll (content.writes payloads)

def encode (content : Content) : Bytes :=
  (content.write {} content.sizes.payloads).bytes

end Content
end EnumWire.Codec
