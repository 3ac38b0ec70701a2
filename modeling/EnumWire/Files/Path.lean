import EnumWire.Text.Basic

/-! # Paths

A path is a text of names between slashes. It starts at the root when a slash comes first, and else
at a current directory. -/
namespace EnumWire.Files

abbrev Path := Text

namespace Path

def isAbsolute (path : Path) : Bool := path.head? = some '/'

def endsWithSlash (path : Path) : Bool := path.getLast? = some '/'

/-- A path below another one; an absolute path replaces what it is joined to. -/
def join (base part : Path) : Path :=
  if isAbsolute part then part
  else if base = [] || endsWithSlash base then base ++ part
  else base ++ '/' :: part

/-- The names of a path; slashes may be doubled, and may end it. -/
def names (path : Path) : List Text := (Text.split '/' path).filter fun name => name ≠ []

/-- The names of a path without the dots that lead nowhere. A relative path keeps a first dot. -/
def plainNames (path : Path) : List Text :=
  match names path with
  | [] => []
  | first :: rest =>
    let rest := rest.filter fun name => name ≠ ['.']
    if first = ['.'] && isAbsolute path then rest else first :: rest

def ofNames (absolute : Bool) (names : List Text) : Path :=
  (if absolute then ['/'] else []) ++ ['/'].intercalate names

theorem join_of_isAbsolute {part : Path} (h : isAbsolute part = true) (base : Path) :
    join base part = part := by
  simp [join, h]

end Path
end EnumWire.Files
