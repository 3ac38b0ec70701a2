import EnumWire.Generated.Constants

/-! # What declared constants stand for

A reader of the generated source finds a declaration on each line that has one. Going through the
declarations from top to bottom gives every constant its number: a literal stands for itself, and a
name for a constant above. -/
namespace EnumWire.Constants

/-- The line that declares a constant. -/
def Declaration.line (declaration : Declaration) : Text :=
  "pub const " ++ declaration.name ++ ": i32 = " ++ declaration.value ++ ";"

/-- Reads a line, with any blanks before it. -/
def Declaration.ofLine? (line : Text) : Option Declaration :=
  (List.isPrefixOf? "pub const ".toList (line.dropWhile fun c => c = ' ')).bind fun declared =>
  (Text.splitFirst ':' declared).bind fun (name, typed) =>
  (List.isPrefixOf? " i32 = ".toList typed).bind fun value =>
  if value.getLast? = some ';' then some ⟨name, value.dropLast⟩ else none

def readSource (source : Text) : List Declaration :=
  (Text.split '\n' source).filterMap Declaration.ofLine?

/-- How a constant is named by one that follows it. -/
def reference (style : EnumStyle) (name : Text) : Text :=
  match style with
  | .shell => "Self::" ++ name
  | .flat => name

inductive Initializer where
  | literal (number : Int)
  | constant (name : Text)
  deriving DecidableEq

def Initializer.ofText? (style : EnumStyle) (t : Text) : Option Initializer :=
  match Text.toInt? t with
  | some number => some (.literal number)
  | none =>
    match style with
    | .shell => (List.isPrefixOf? "Self::".toList t).map .constant
    | .flat => some (.constant t)

/-- The number of an initializer where the constants above are known; a literal has to fit. -/
def Initializer.number? (known : List (Text × Int32)) : Initializer → Option Int32
  | .literal number =>
    if (Int32.ofInt number).toInt = number then some (Int32.ofInt number) else none
  | .constant name => known.lookup name

/-- Declares one more constant, under a name that is not taken. -/
def declare (style : EnumStyle) (known : List (Text × Int32)) (declaration : Declaration) :
    Option (List (Text × Int32)) :=
  if (known.lookup declaration.name).isSome then none
  else (Initializer.ofText? style declaration.value).bind fun initializer =>
    (initializer.number? known).map fun number => known ++ [(declaration.name, number)]

def evaluate (style : EnumStyle) (declarations : List Declaration) :
    Option (List (Text × Int32)) :=
  declarations.foldlM (declare style) []

end EnumWire.Constants
