import EnumWire.Yaml.Node
import EnumWire.Yaml.Token.Tag

/-! # The nodes of a stream of tokens

Documents: directives and a start mark, the nodes nested as the tokens tell, and an end mark. Where
a node may be left out, an empty scalar takes its place. Tokens are read one after the other, so
that the first flaw or misplaced token counts. -/
namespace EnumWire.Yaml.Node

/-- The octets with which the tags of a handle begin; the first ones of a handle count. -/
abbrev Handles := List (Text × List UInt8)

def defaultHandles : Handles :=
  [("!", Token.octets "!"), ("!!", Token.octets "tag:yaml.org,2002:")]

/-- A part of a document, and the tokens after it. -/
abbrev Parse (α : Type) := Except Flaw (α × List Token)

/-- Applies a function to a part that was read. -/
def Parse.answer {α β : Type} (f : α → β) (parse : Parse α) : Parse β :=
  parse.map fun (a, rest) => (f a, rest)

/-- The flaw of a stream whose next token has no place here. -/
def misplaced {α : Type} : List Token → Except Flaw α
  | .flaw flaw :: _ => .error flaw
  | _ => .error .malformed

/-- A tag whose octets are no text is like none that has a meaning. -/
def tagText (octets : List UInt8) : Text :=
  ((String.fromUTF8? octets.toByteArray).map String.toList).getD ['\ufffd']

/-- A tag without a handle is written in full. A handle that is not known is a flaw, if the token
after the properties is none. -/
def resolveTag (handles : Handles) (handle : Text) (suffix : List UInt8) (rest : List Token) :
    Except Flaw Text :=
  if handle = [] then .ok (tagText suffix)
  else match handles.lookup handle with
    | some start => .ok (tagText (start ++ suffix))
    | none => misplaced rest

/-- An anchor and a tag, each at most once, in any order. -/
def properties (handles : Handles) : List Token → Parse Properties
  | .anchor n :: .tag h t :: rest =>
    (resolveTag handles h t rest).map fun tag => (⟨some n, some tag⟩, rest)
  | .tag h t :: .anchor n :: rest =>
    (resolveTag handles h t rest).map fun tag => (⟨some n, some tag⟩, rest)
  | .anchor n :: rest => .ok (⟨some n, none⟩, rest)
  | .tag h t :: rest => (resolveTag handles h t rest).map fun tag => (⟨none, some tag⟩, rest)
  | rest => .ok ({}, rest)

/-- Where a node may begin. -/
inductive Place where
  /-- In a flow collection. -/
  | flow
  /-- In a block collection or at the root. -/
  | block
  /-- In a block mapping, where the dashes of a sequence need no indentation. -/
  | blockMapping
  deriving DecidableEq

/-- Whether a node has been left out before a token. -/
def endsItem : List Token → Bool
  | .dash :: _ => true
  | .blockEnd :: _ => true
  | _ => false

def endsField : List Token → Bool
  | .key :: _ => true
  | .value :: _ => true
  | .blockEnd :: _ => true
  | _ => false

def endsFlowItem : List Token → Bool
  | .comma :: _ => true
  | .flowSequenceEnd :: _ => true
  | _ => false

def endsFlowField : List Token → Bool
  | .comma :: _ => true
  | .flowMappingEnd :: _ => true
  | _ => false

def valueAhead : List Token → Bool
  | .value :: _ => true
  | _ => false

def optionalNode (absent : Bool) (tokens : List Token) (parse : List Token → Parse Node) :
    Parse Node :=
  if absent then .ok (empty, tokens) else parse tokens

mutual

def node (handles : Handles) : Nat → Place → List Token → Parse Node
  | 0, _, _ => .error .malformed
  | _ + 1, _, .alias n :: rest => .ok (.alias n, rest)
  | fuel + 1, place, tokens =>
    (properties handles tokens).bind fun (p, tokens) =>
      match tokens, place with
      | .dash :: _, .blockMapping => (plainItems handles fuel tokens).answer (.sequence p)
      | .scalar style text :: rest, _ => .ok (.scalar p style text, rest)
      | .flowSequence :: rest, _ => (flowItems handles fuel true rest).answer (.sequence p)
      | .flowMapping :: rest, _ => (flowFields handles fuel true rest).answer (.mapping p)
      | .blockSequence :: rest, .block | .blockSequence :: rest, .blockMapping =>
        (items handles fuel rest).answer (.sequence p)
      | .blockMapping :: rest, .block | .blockMapping :: rest, .blockMapping =>
        (fields handles fuel rest).answer (.mapping p)
      | .flaw flaw :: _, _ => .error flaw
      | _, _ => if p = {} then .error .malformed else .ok (.scalar p .plain [], tokens)

/-- The items of a block sequence, and its end. -/
def items (handles : Handles) : Nat → List Token → Parse (List Node)
  | fuel + 1, .dash :: rest =>
    (optionalNode (endsItem rest) rest (node handles fuel .block)).bind fun (item, rest) =>
      (items handles fuel rest).answer (item :: ·)
  | _ + 1, .blockEnd :: rest => .ok ([], rest)
  | _, tokens => misplaced tokens

/-- The items of a sequence that is not indented, up to the first token that is no dash. -/
def plainItems (handles : Handles) : Nat → List Token → Parse (List Node)
  | 0, _ => .error .malformed
  | fuel + 1, .dash :: rest =>
    (optionalNode (endsItem rest || endsField rest) rest (node handles fuel .block)).bind
      fun (item, rest) => (plainItems handles fuel rest).answer (item :: ·)
  | _ + 1, rest => .ok ([], rest)

/-- The fields of a block mapping, and its end. -/
def fields (handles : Handles) : Nat → List Token → Parse (List (Node × Node))
  | fuel + 1, .key :: rest =>
    (optionalNode (endsField rest) rest (node handles fuel .blockMapping)).bind fun (key, rest) =>
      (fieldValue handles fuel rest).bind fun (value, rest) =>
        (fields handles fuel rest).answer ((key, value) :: ·)
  | _ + 1, .blockEnd :: rest => .ok ([], rest)
  | _, tokens => misplaced tokens

def fieldValue (handles : Handles) : Nat → List Token → Parse Node
  | 0, _ => .error .malformed
  | fuel + 1, .value :: rest =>
    optionalNode (endsField rest) rest (node handles fuel .blockMapping)
  | _ + 1, rest => .ok (empty, rest)

/-- The items of a flow sequence, and its end; `first` tells that no comma is due. -/
def flowItems (handles : Handles) : Nat → (first : Bool) → List Token → Parse (List Node)
  | _ + 1, _, .flowSequenceEnd :: rest => .ok ([], rest)
  | fuel + 1, first, tokens =>
    (separated first tokens).bind fun tokens =>
      match tokens with
      | .flowSequenceEnd :: rest => .ok ([], rest)
      | .key :: rest =>
        (pair handles fuel rest).bind fun (item, rest) =>
          (flowItems handles fuel false rest).answer (item :: ·)
      | _ =>
        (node handles fuel .flow tokens).bind fun (item, rest) =>
          (flowItems handles fuel false rest).answer (item :: ·)
  | 0, _, _ => .error .malformed

/-- A mapping of one field among the items of a flow sequence. The token after a key that is left
out is passed over, whatever it is. -/
def pair (handles : Handles) : Nat → List Token → Parse Node
  | 0, _ => .error .malformed
  | fuel + 1, tokens =>
    let key := if valueAhead tokens || endsFlowItem tokens then .ok (empty, tokens.drop 1)
      else node handles fuel .flow tokens
    key.bind fun (key, rest) =>
      (flowValue handles fuel endsFlowItem rest).answer fun value => .mapping {} [(key, value)]

/-- The fields of a flow mapping, and its end; `first` tells that no comma is due. -/
def flowFields (handles : Handles) : Nat → (first : Bool) → List Token → Parse (List (Node × Node))
  | _ + 1, _, .flowMappingEnd :: rest => .ok ([], rest)
  | fuel + 1, first, tokens =>
    (separated first tokens).bind fun tokens =>
      match tokens with
      | .flowMappingEnd :: rest => .ok ([], rest)
      | .key :: rest =>
        (optionalNode (valueAhead rest || endsFlowField rest) rest (node handles fuel .flow)).bind
          fun (key, rest) =>
            (flowValue handles fuel endsFlowField rest).bind fun (value, rest) =>
              (flowFields handles fuel false rest).answer ((key, value) :: ·)
      | _ =>
        (node handles fuel .flow tokens).bind fun (key, rest) =>
          (flowFields handles fuel false rest).answer ((key, empty) :: ·)
  | 0, _, _ => .error .malformed

def flowValue (handles : Handles) : Nat → (absent : List Token → Bool) → List Token → Parse Node
  | 0, _, _ => .error .malformed
  | fuel + 1, absent, .value :: rest => optionalNode (absent rest) rest (node handles fuel .flow)
  | _ + 1, _, rest => .ok (empty, rest)

/-- A comma before every item or field but the first. -/
def separated (first : Bool) (tokens : List Token) : Except Flaw (List Token) :=
  if first then .ok tokens
  else match tokens with
    | .comma :: rest => .ok rest
    | _ => misplaced tokens

end

/-! ### Documents -/

/-- The directives before a document: at most one version, and each handle once. -/
structure Directives where
  version : Option (Nat × Nat) := none
  handles : Handles := []
  deriving DecidableEq

def directives (seen : Directives) : List Token → Parse Directives
  | .version major minor :: rest =>
    if seen.version = none && major = 1 && (minor = 1 || minor = 2) then
      directives { seen with version := some (major, minor) } rest
    else .error .malformed
  | .tagHandle handle start :: rest =>
    if (seen.handles.lookup handle).isSome then .error .malformed
    else directives { seen with handles := seen.handles ++ [(handle, start)] } rest
  | rest => .ok (seen, rest)

def endsDocument : List Token → Bool
  | [] => true
  | .version _ _ :: _ => true
  | .tagHandle _ _ :: _ => true
  | .documentStart :: _ => true
  | .documentEnd :: _ => true
  | _ => false

/-- What comes after the root of a document: an end mark is passed over. -/
def afterRoot : List Token → Except Flaw (List Token)
  | .documentEnd :: rest => .ok rest
  | .flaw flaw :: _ => .error flaw
  | rest => .ok rest

/-- The root of a document. The first document of a stream needs no start mark, unless directives
come before it. -/
def document (first : Bool) (tokens : List Token) : Parse Node :=
  (directives {} tokens).bind fun (seen, rest) =>
    let parse := node (seen.handles ++ defaultHandles) (4 * tokens.length + 4) .block
    let root := match rest with
      | .documentStart :: rest => optionalNode (endsDocument rest) rest parse
      | _ => if first && rest ≠ [] && seen = ({} : Directives) then parse rest else misplaced rest
    root.bind fun (root, rest) => (afterRoot rest).map fun rest => (root, rest)

/-- Whether no further document comes. One that does is a flaw, once it has been read. -/
def noDocument (tokens : List Token) : Except Flaw Unit :=
  match tokens.dropWhile (· = .documentEnd) with
  | [] => .ok ()
  | rest => (document false rest).bind fun _ => .error .malformed

end EnumWire.Yaml.Node
