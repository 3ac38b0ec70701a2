import EnumWire.Text.Decimal

/-! # What plain scalars stand for

A plain scalar may read as nothing, a truth value or an integer. Integers are decimal without leading
zeros, or hexadecimal, octal or binary behind a mark. -/
namespace EnumWire.Yaml.Scalar

def isNull (t : Text) : Bool :=
  t = "~" || t = "null" || t = "Null" || t = "NULL"

def bool? (t : Text) : Option Bool :=
  if t = "true" || t = "True" || t = "TRUE" then some true
  else if t = "false" || t = "False" || t = "FALSE" then some false
  else none

/-- The value of a digit in a base of at most sixteen. -/
def digit? (base : Nat) (c : Char) : Option Nat :=
  let value :=
    if c.isDigit then c.toNat - 48
    else if 'a' ≤ c && c ≤ 'f' then c.toNat - 87
    else if 'A' ≤ c && c ≤ 'F' then c.toNat - 55
    else base
  if value < base then some value else none

def digitsValue? (base : Nat) (t : Text) : Option Nat :=
  if t = [] then none
  else t.foldlM (fun value c => (digit? base c).map (base * value + ·)) 0

/-- Decimal digits that begin with a zero that is not their last. -/
def hasLeadingZero : Text → Bool
  | '0' :: c :: rest => (c :: rest).all Char.isDigit
  | _ => false

def magnitude? : Text → Option Nat
  | '0' :: 'x' :: rest => digitsValue? 16 rest
  | '0' :: 'o' :: rest => digitsValue? 8 rest
  | '0' :: 'b' :: rest => digitsValue? 2 rest
  | t => if hasLeadingZero t then none else digitsValue? 10 t

def nat? : Text → Option Nat
  | '+' :: rest => magnitude? rest
  | t => magnitude? t

def int? : Text → Option Int
  | '-' :: rest => (magnitude? rest).map fun n => -(n : Int)
  | t => (nat? t).map Int.ofNat

end EnumWire.Yaml.Scalar
