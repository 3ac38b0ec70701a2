import EnumWire.Descriptor.Arm

/-! # What messages hold

A slot is a field of a message together with what the message holds in it. A singular field always
holds a value, at first its default, and is present when it differs from that. -/
namespace EnumWire.Codec

inductive Slot where
  | singular (number : UInt32) (default value : Int32)
  | repeated (number : UInt32) (values : List Int32)
  | packed (number : UInt32) (values : List Int32)
  deriving DecidableEq

/-- The fields of a message in declaration order. -/
abbrev Content := List Slot

namespace Slot

def ofField (field : Field) : Slot :=
  match field.kind with
  | .singular => .singular field.number field.defaultValue.number field.defaultValue.number
  | .repeated => .repeated field.number []
  | .packed => .packed field.number []

def number : Slot → UInt32
  | .singular n _ _ => n
  | .repeated n _ => n
  | .packed n _ => n

def kind : Slot → FieldKind
  | .singular _ _ _ => .singular
  | .repeated _ _ => .repeated
  | .packed _ _ => .packed

/-- The slot when its message is new. -/
def initial : Slot → Slot
  | .singular n default _ => .singular n default default
  | .repeated n _ => .repeated n []
  | .packed n _ => .packed n []

def arms (slot : Slot) : List Arm := slot.kind.arms slot.number

/-- Takes a present value over, or appends elements. -/
def merge : Slot → Slot → Slot
  | .singular n default value, .singular _ _ other =>
    .singular n default (if other ≠ default then other else value)
  | .repeated n values, .repeated _ others => .repeated n (values ++ others)
  | .packed n values, .packed _ others => .packed n (values ++ others)
  | slot, _ => slot

theorem kind_ofField (field : Field) : (ofField field).kind = field.kind := by
  unfold ofField
  cases field.kind <;> rfl

theorem number_ofField (field : Field) : (ofField field).number = field.number := by
  unfold ofField
  cases field.kind <;> rfl

theorem arms_ofField (field : Field) : (ofField field).arms = field.arms := by
  rw [arms, kind_ofField, number_ofField]
  rfl

end Slot

namespace Content

def initial (content : Content) : Content := content.map Slot.initial

/-- Merges the slots of another content of the same message. -/
def merge (content other : Content) : Content := content.zipWith Slot.merge other

end Content
end EnumWire.Codec
