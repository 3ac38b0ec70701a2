import EnumWire.Yaml.Node.Stream
import EnumWire.Yaml.Token.Stream

/-! # Values of nodes

A document is a node with its anchored nodes. What its nodes mean depends on a reader who expects a
text, a number, a truth value, a list or a record. An alias stands for the last node with its anchor
and is followed wherever a node is looked at; how often is limited. -/
namespace EnumWire.Yaml

structure Document where
  root : Node
  /-- The anchored nodes, the last one first. -/
  anchors : List (Nat × Node)

namespace Document

def ofRoot (root : Node) : Document := ⟨root, root.anchors.reverse⟩

/-- The first document of a text, and the tokens after it. -/
def first (text : Text) : Except Flaw (Document × List Token) :=
  (Flaw.ofOption (Source.ofText? text)).bind fun source =>
    (Node.document true (Token.ofSource source)).map fun (root, rest) => (ofRoot root, rest)

/-- How often the aliases of a document may be followed while it is read. -/
def maxFollowed (document : Document) : Nat := 100 * document.root.size

end Document

/-! ### Readers of nodes -/

/-- A value, or a failure; the state is the number of aliases that may still be followed. -/
abbrev Decode (α : Type) := StateT Nat Option α

namespace Decode

def fail {α : Type} : Decode α := fun _ => none

def ofOption {α : Type} : Option α → Decode α
  | some a => pure a
  | none => fail

def nullTag : Text := "tag:yaml.org,2002:null"
def boolTag : Text := "tag:yaml.org,2002:bool"
def intTag : Text := "tag:yaml.org,2002:int"

variable (document : Document)

/-- The node that an alias stands for, or the node itself. -/
def target (node : Node) : Decode Node :=
  match node with
  | .alias n => do
    match ← get with
    | 0 => fail
    | left + 1 => set left; ofOption (document.anchors.lookup n)
  | node => pure node

/-- A scalar of any style is a text. -/
def text (node : Node) : Decode Text := do
  match ← target document node with
  | .scalar _ _ t => pure t
  | _ => fail

/-- Whether a scalar stands for nothing; one that is tagged so must be a word for it. -/
def isAbsent? (tag : Option Text) (style : Style) (t : Text) : Option Bool :=
  if style ≠ .plain then some false
  else match tag with
    | none => some (t = [] || Scalar.isNull t)
    | some tag => if tag ≠ nullTag then some false else if Scalar.isNull t then some true else none

def optionalText (node : Node) : Decode (Option Text) := do
  match ← target document node with
  | .scalar p style t =>
    if ← ofOption (isAbsent? p.tag style t) then pure none else pure (some t)
  | _ => fail

/-- A plain scalar, or a literal block with the tag of its kind, that is read by a rule. -/
def resolved {α : Type} (kind : Text) (read : Text → Option α) (node : Node) : Decode α := do
  match ← target document node with
  | .scalar p style t =>
    if style = .plain || (style = .literal && p.tag = some kind) then ofOption (read t) else fail
  | _ => fail

def bool (node : Node) : Decode Bool := resolved document boolTag Scalar.bool? node

def int32? (t : Text) : Option Int32 :=
  (Scalar.int? t).bind fun i =>
    if Int32.minValue.toInt ≤ i && i ≤ Int32.maxValue.toInt then some (Int32.ofInt i) else none

def uint32? (t : Text) : Option UInt32 :=
  (Scalar.nat? t).bind fun n => if n < UInt32.size then some (UInt32.ofNat n) else none

def int32 (node : Node) : Decode Int32 := resolved document intTag int32? node

def uint32 (node : Node) : Decode UInt32 := resolved document intTag uint32? node

/-- The word that a tag of the document's own names. -/
def tagWord? : Option Text → Option Text
  | some ['!'] => some ['!']
  | some ('!' :: name) => some name
  | _ => none

/-- One of several words. A tag that names the word does so instead of the scalar, which then has to
stand for nothing. -/
def word {α : Type} (read : Text → Option α) (node : Node) : Decode α := do
  match ← target document node with
  | .scalar p style t =>
    match tagWord? p.tag with
    | some name =>
      if style = .plain && (t = [] || Scalar.isNull t) then ofOption (read name) else fail
    | none => ofOption (read t)
  | _ => fail

/-- A sequence, or nothing. -/
def list {α : Type} (item : Node → Decode α) (node : Node) : Decode (List α) := do
  match ← target document node with
  | .sequence _ items => items.mapM item
  | .scalar _ style t => if style = .plain && t = [] then pure [] else fail
  | _ => fail

/-! ### Records -/

/-- The fields of a record by their names. -/
abbrev Record := List (Text × Node)

/-- The fields of a mapping that have one of the given names, each of which may occur once. Every
key has to be a text. -/
def record (names : List Text) (node : Node) : Decode Record := do
  match ← target document node with
  | .mapping _ entries =>
    let named ← entries.mapM fun (key, value) => do return (← text document key, value)
    let fields := named.filter fun (name, _) => names.contains name
    if (fields.map Prod.fst).Nodup then pure fields else fail
  | _ => fail

namespace Record

def required {α : Type} (record : Record) (name : Text) (decode : Node → Decode α) : Decode α :=
  match record.lookup name with
  | some node => decode node
  | none => fail

def optional {α : Type} (record : Record) (name : Text) (default : α) (decode : Node → Decode α) :
    Decode α :=
  match record.lookup name with
  | some node => decode node
  | none => pure default

end Record
end Decode

/-- Decodes the root of the only document of a text. The root is decoded before the text is read on
for another document. -/
def decode {α : Type} (read : Document → Node → Decode α) (text : Text) : Except Flaw α :=
  (Document.first text).bind fun (document, rest) =>
    (Flaw.ofOption (read document document.root document.maxFollowed)).bind fun (a, _) =>
      (Node.noDocument rest).map fun _ => a

end EnumWire.Yaml
