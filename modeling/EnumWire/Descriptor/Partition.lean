import EnumWire.Descriptor.Basic

/-! # Canonical values and aliases

For each number the value declared first is canonical. Every later value with that number is an
alias of it, so an alias never stands for another alias. One pass over the values notes where each
number comes first, and a second one divides them. -/
namespace EnumWire

structure Alias where
  value : EnumValue
  canonical : EnumValue
  deriving DecidableEq

structure Partition where
  canonicalValues : List EnumValue
  aliases : List Alias
  deriving DecidableEq

namespace Partition

/-- Notes the index of a value under its number, unless an earlier value has that number. -/
def noteFirst (known : List (Int32 × Nat)) (entry : EnumValue × Nat) : List (Int32 × Nat) :=
  if (known.lookup entry.1.number).isSome then known else (entry.1.number, entry.2) :: known

/-- The index of the first value with each number. -/
def firstIndices (values : List EnumValue) : List (Int32 × Nat) :=
  values.zipIdx.foldl noteFirst []

/-- Divides values that are given with their indices, going by the first index of each number. -/
def place (values : List EnumValue) (first : List (Int32 × Nat)) : List (EnumValue × Nat) → Partition
  | [] => ⟨[], []⟩
  | (value, index) :: rest =>
    let parts := place values first rest
    match first.lookup value.number with
    | none => parts
    | some canonicalIndex =>
      if canonicalIndex = index then
        { parts with canonicalValues := value :: parts.canonicalValues }
      else match values[canonicalIndex]? with
        | none => parts
        | some canonical => { parts with aliases := ⟨value, canonical⟩ :: parts.aliases }

def ofEnum (enum : EnumType) : Partition :=
  place enum.values (firstIndices enum.values) enum.values.zipIdx

def isCanonical (parts : Partition) (value : EnumValue) : Bool :=
  parts.canonicalValues.any fun canonical => canonical.index = value.index

/-- The canonical value that stands for a value; a canonical value stands for itself. -/
def canonicalOf (parts : Partition) (value : EnumValue) : EnumValue :=
  match parts.aliases.find? fun entry => entry.value.index = value.index with
  | some entry => entry.canonical
  | none => value

end Partition
end EnumWire
