import EnumWire.Files.Path

/-! # Trees of files and directories

What a program finds under its paths and leaves there. Names are looked up one after the other, each
in a directory; an operation fails with the fault of the first name that stops it, and a failed one
changes nothing but the directories that it has made on its way. -/
namespace EnumWire.Files

inductive Fault where
  | notFound
  | alreadyExists
  | notDirectory
  | isDirectory
  | nameTooLong
  /-- The octets of a file are no UTF-8 text. -/
  | notText
  /-- A path holds the character that ends paths. -/
  | nullCharacter
  /-- A fault that no tree of this kind has, in the words of the system that reports it. -/
  | other (text : Text)
  deriving DecidableEq

def Fault.message : Fault → Text
  | .notFound => "No such file or directory (os error 2)"
  | .alreadyExists => "File exists (os error 17)"
  | .notDirectory => "Not a directory (os error 20)"
  | .isDirectory => "Is a directory (os error 21)"
  | .nameTooLong => "File name too long (os error 36)"
  | .notText => "stream did not contain valid UTF-8"
  | .nullCharacter => "file name contained an unexpected NUL byte"
  | .other text => text

inductive Entry where
  | directory
  | text (content : Text)
  /-- A file that is no text. -/
  | binary
  deriving DecidableEq

/-- The names from the root to an entry. -/
abbrev Location := List Text

structure FileTree where
  /-- What is below the root, each location once. -/
  entries : List (Location × Entry) := []
  /-- The directory at which relative paths start. -/
  current : Location := []
  deriving DecidableEq

namespace FileTree

def maxNameSize : Nat := 255

def maxPathSize : Nat := 4095

def find? (tree : FileTree) (location : Location) : Option Entry :=
  if location = [] then some .directory else tree.entries.lookup location

def put (tree : FileTree) (location : Location) (entry : Entry) : FileTree :=
  { tree with
    entries := (location, entry) :: tree.entries.filter fun other => other.1 ≠ location }

/-! ### Looking names up -/

/-- Where a name leads in a directory. -/
def enter (tree : FileTree) (location : Location) (name : Text) : Except Fault Location :=
  match tree.find? location with
  | none => .error .notFound
  | some .directory =>
    if name = "." then .ok location
    else if name = ".." then .ok location.dropLast
    else if maxNameSize < Text.utf8Size name then .error .nameTooLong
    else if (tree.find? (location ++ [name])).isSome then .ok (location ++ [name])
    else .error .notFound
  | some _ => .error .notDirectory

def checkPath (path : Path) : Except Fault Unit :=
  if path.contains '\x00' then .error .nullCharacter
  else if path = [] then .error .notFound
  else if maxPathSize < Text.utf8Size path then .error .nameTooLong
  else .ok ()

/-- Where names lead from the start of a path. -/
def follow (tree : FileTree) (path : Path) (names : List Text) : Except Fault Location :=
  (checkPath path).bind fun _ =>
    names.foldlM tree.enter (if path.isAbsolute then [] else tree.current)

/-- Where a path leads; a slash at its end asks for a directory. -/
def locate (tree : FileTree) (path : Path) : Except Fault Location :=
  tree.follow path (path.names ++ if path.endsWithSlash then [['.']] else [])

def isDirectory (tree : FileTree) (path : Path) : Bool :=
  match tree.locate path with
  | .ok location => tree.find? location = some .directory
  | .error _ => false

/-! ### Operations -/

def read (tree : FileTree) (path : Path) : Except Fault Text :=
  (tree.locate path).bind fun location =>
    match tree.find? location with
    | some (.text content) => .ok content
    | some .binary => .error .notText
    | some .directory => .error .isDirectory
    | none => .error .notFound

/-- Puts an entry at the last name of a path if nothing is there; `replace` says what comes of an
entry that is. -/
def place (tree : FileTree) (path : Path) (entry : Entry)
    (replace : Location → Except Fault FileTree) : Except Fault FileTree :=
  (tree.follow path path.names.dropLast).bind fun above =>
    match path.names.getLast? with
    | none => replace above
    | some name =>
      match tree.enter above name with
      | .ok location => replace location
      | .error .notFound => .ok (tree.put (above ++ [name]) entry)
      | .error fault => .error fault

def makeDirectory (tree : FileTree) (path : Path) : Except Fault FileTree :=
  tree.place path .directory fun _ => .error .alreadyExists

/-- Makes a file, or gives one a new content. -/
def write (tree : FileTree) (path : Path) (content : Text) : Except Fault FileTree :=
  tree.place path (.text content) fun location =>
    if tree.find? location = some .directory then .error .isDirectory
    else .ok (tree.put location (.text content))

/-- What is left after a directory was to be made: that it is there already is no fault. -/
def settle (tree : FileTree) (path : Path) : Except Fault FileTree → Except Fault Unit × FileTree
  | .ok made => (.ok (), made)
  | .error fault => (if tree.isDirectory path then .ok () else .error fault, tree)

/-- Makes a directory; when one above it is missing, `above` makes that one first. -/
def makeBelow (tree : FileTree) (path : Path) (above : Except Fault Unit × FileTree) :
    Except Fault Unit × FileTree :=
  match tree.makeDirectory path with
  | .error .notFound =>
    match above with
    | (.ok (), tree) => tree.settle path (tree.makeDirectory path)
    | failed => failed
  | made => tree.settle path made

/-- Makes the directory of some names, given from the last one, and those above it. -/
def makeNames (tree : FileTree) (absolute : Bool) : List Text → Except Fault Unit × FileTree
  | [] => (.ok (), tree)
  | name :: above =>
    tree.makeBelow (Path.ofNames absolute (name :: above).reverse) (tree.makeNames absolute above)

/-- Makes a directory and those above it, unless they are there. -/
def makeDirectories (tree : FileTree) (path : Path) : Except Fault Unit × FileTree :=
  if path = [] then (.ok (), tree)
  else tree.makeBelow path (tree.makeNames path.isAbsolute path.plainNames.reverse.tail)

/-! ### What an operation leaves -/

theorem find?_put_self {tree : FileTree} {location : Location} (h : location ≠ []) (entry : Entry) :
    (tree.put location entry).find? location = some entry := by
  simp [find?, put, h]

theorem lookup_filter_ne {a b : Location} (h : a ≠ b) (l : List (Location × Entry)) :
    (l.filter fun p => p.1 ≠ b).lookup a = l.lookup a := by
  induction l with
  | nil => rfl
  | cons p l ih =>
    obtain ⟨c, v⟩ := p
    by_cases hc : c = b
    · subst hc
      have hne : (a == c) = false := by simpa using h
      simpa [List.lookup_cons, hne] using ih
    · by_cases ha : a = c
      · subst ha
        simp [hc]
      · have hne : (a == c) = false := by simpa using ha
        simpa [hc, List.lookup_cons, hne] using ih

theorem find?_put_of_ne {tree : FileTree} {location other : Location} (h : other ≠ location)
    (entry : Entry) : (tree.put location entry).find? other = tree.find? other := by
  have hne : (other == location) = false := by simpa using h
  simp only [find?, put, List.lookup_cons, hne]
  rw [lookup_filter_ne h]

end FileTree
end EnumWire.Files
