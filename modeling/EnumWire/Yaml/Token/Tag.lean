import EnumWire.Yaml.Token

/-! # Tags, anchors and directives

A tag is a handle and a suffix of octets; the suffix may hold octets as a percent sign and two
digits. An octet of zero ends the suffix, whatever comes after it. -/
namespace EnumWire.Yaml.Token

/-- Whether octets are UTF-8 sequences of the lengths that their first octets tell; `pending` octets
of a sequence are still to come. -/
def areSequences : (pending : Nat) → List UInt8 → Bool
  | pending, [] => pending = 0
  | 0, b :: bs =>
    if b < 0x80 then areSequences 0 bs
    else if b < 0xc0 then false
    else if b < 0xe0 then areSequences 1 bs
    else if b < 0xf0 then areSequences 2 bs
    else if b < 0xf8 then areSequences 3 bs
    else false
  | pending + 1, b :: bs => 0x80 ≤ b && b < 0xc0 && areSequences pending bs

def isUri (verbatim : Bool) (c : Char) : Bool :=
  isWord c || ";/?:@&=+$.!~*'()".toList.contains c || (verbatim && ",[]".toList.contains c)

/-- The longest run of characters of a tag; `escaped` octets were read right before it. -/
def uri (verbatim : Bool) (escaped : List UInt8) : Source → Reading (List UInt8)
  | [] => if areSequences 0 escaped then .ok (escaped, []) else .error .malformed
  | s :: rest =>
    if s.char = '%' then
      match rest with
      | h :: l :: more =>
        match Scalar.digit? 16 h.char, Scalar.digit? 16 l.char with
        | some high, some low => uri verbatim (escaped ++ [UInt8.ofNat (16 * high + low)]) more
        | _, _ => .error .malformed
      | _ => .error .malformed
    else if !areSequences 0 escaped then .error .malformed
    else if isUri verbatim s.char then
      (uri verbatim [] rest).answer fun octets => escaped ++ String.utf8EncodeChar s.char ++ octets
    else .ok (escaped, s :: rest)

/-- What counts of octets. -/
def beforeZero (octets : List UInt8) : List UInt8 := octets.takeWhile (· ≠ 0)

def word (source : Source) : Text × Source :=
  (Source.text (source.takeWhile fun s => isWord s.char), source.dropWhile fun s => isWord s.char)

/-- An exclamation mark, word characters, and a second exclamation mark if there is one. -/
def handle : Source → Reading Text
  | [] => .error .malformed
  | s :: rest =>
    if s.char ≠ '!' then .error .malformed
    else
      let (name, rest) := word rest
      if Source.charAhead (· = '!') rest then .ok ('!' :: name ++ ['!'], rest.drop 1)
      else .ok ('!' :: name, rest)

def nonempty (reading : Reading (List UInt8)) : Reading (List UInt8) :=
  reading.bind fun (octets, rest) => if octets = [] then .error .malformed else .ok (octets, rest)

def octets (t : Text) : List UInt8 := t.flatMap String.utf8EncodeChar

/-- A tag without its handle has the handle `!`, and the tag `!` has none. -/
def tagBody (source : Source) : Reading Token :=
  if Source.text (source.take 2) = ['!', '<'] then
    (nonempty (uri true [] (source.drop 2))).bind fun (suffix, rest) =>
      if Source.charAhead (· = '>') rest then .ok (.tag [] (beforeZero suffix), rest.drop 1)
      else .error .malformed
  else
    (handle source).bind fun (h, rest) =>
      if h ≠ ['!'] && h.getLast? = some '!' then
        (nonempty (uri false [] rest)).answer fun suffix => .tag h (beforeZero suffix)
      else
        (uri false [] rest).answer fun more =>
          let suffix := beforeZero (octets (h.drop 1) ++ more)
          if suffix = [] then .tag [] (octets ['!']) else .tag ['!'] suffix

/-- A tag ends before a blank or a break; in a flow collection a comma may come next. -/
def tagToken (flow : Bool) (source : Source) : Reading Token :=
  (tagBody source).bind fun (t, rest) =>
    if Source.separatorAhead rest || (flow && Source.charAhead (· = ',') rest) then .ok (t, rest)
    else .error .malformed

/-- The name of an anchor or an alias. -/
def anchorName (source : Source) : Reading Text :=
  let (name, rest) := word source
  if name ≠ [] &&
      (Source.separatorAhead rest || Source.charAhead "?:,]\x7d%@\x60".toList.contains rest) then
    .ok (name, rest)
  else .error .malformed

/-! ### Directives -/

/-- A part of a version number, of at most nine digits. -/
def versionPart (source : Source) : Reading Nat :=
  let ds := Source.text (source.takeWhile fun s => s.char.isDigit)
  if ds.length ≤ 9 then
    (Flaw.ofOption (Scalar.digitsValue? 10 ds)).map fun n =>
      (n, source.dropWhile fun s => s.char.isDigit)
  else .error .malformed

def versionDirective (source : Source) : Reading Token :=
  (versionPart (Source.dropSpaces source)).bind fun (major, rest) =>
    if Source.charAhead (· = '.') rest then (versionPart (rest.drop 1)).answer (.version major)
    else .error .malformed

def handleDirective (source : Source) : Reading Token :=
  (handle (Source.dropSpaces source)).bind fun (h, rest) =>
    if h.getLast? = some '!' && Source.charAhead isSpace rest then
      (nonempty (uri true [] (Source.dropSpaces rest))).bind fun (start, rest) =>
        if Source.separatorAhead rest then .ok (.tagHandle h (beforeZero start), rest)
        else .error .malformed
    else .error .malformed

/-- A directive after its percent sign, up to the next line. -/
def directive (source : Source) : Reading Token :=
  let (name, rest) := word source
  let body : Reading Token :=
    if !Source.separatorAhead rest then .error .malformed
    else if name = "YAML" then versionDirective rest
    else if name = "TAG" then handleDirective rest
    else .error .malformed
  body.bind fun (t, rest) => (Flaw.ofOption (Source.endOfLine? rest)).map fun rest => (t, rest)

end EnumWire.Yaml.Token
