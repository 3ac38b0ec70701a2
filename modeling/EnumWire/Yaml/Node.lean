import EnumWire.Yaml.Token

/-! # Nodes of a document

Scalars, sequences and mappings with their tags and anchors, as they are nested in the stream. An
alias stands for the node with its anchor. -/
namespace EnumWire.Yaml

/-- What a node carries besides its content. -/
structure Properties where
  anchor : Option Nat := none
  tag : Option Text := none
  deriving DecidableEq

inductive Node where
  | scalar (properties : Properties) (style : Style) (text : Text)
  | sequence (properties : Properties) (items : List Node)
  | mapping (properties : Properties) (entries : List (Node × Node))
  | alias (anchor : Nat)

namespace Node

/-- What stands where a node is left out. -/
def empty : Node := .scalar {} .plain []

mutual

/-- The number of scalars, aliases, and starts and ends of collections. -/
def size : Node → Nat
  | .scalar _ _ _ => 1
  | .alias _ => 1
  | .sequence _ items => 2 + itemsSize items
  | .mapping _ entries => 2 + entriesSize entries

def itemsSize : List Node → Nat
  | [] => 0
  | item :: items => size item + itemsSize items

def entriesSize : List (Node × Node) → Nat
  | [] => 0
  | (key, value) :: entries => size key + size value + entriesSize entries

end

/-- A node and its anchor, if it has one. -/
def anchored (p : Properties) (node : Node) : List (Nat × Node) :=
  match p.anchor with
  | some n => [(n, node)]
  | none => []

mutual

/-- The anchored nodes within a node in the order in which they begin. -/
def anchors : Node → List (Nat × Node)
  | .alias _ => []
  | .scalar p style text => anchored p (.scalar p style text)
  | .sequence p items => anchored p (.sequence p items) ++ itemAnchors items
  | .mapping p entries => anchored p (.mapping p entries) ++ entryAnchors entries

def itemAnchors : List Node → List (Nat × Node)
  | [] => []
  | item :: items => anchors item ++ itemAnchors items

def entryAnchors : List (Node × Node) → List (Nat × Node)
  | [] => []
  | (key, value) :: entries => anchors key ++ anchors value ++ entryAnchors entries

end

end Node
end EnumWire.Yaml
