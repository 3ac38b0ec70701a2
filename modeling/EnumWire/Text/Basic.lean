/-! # Text as a list of characters

Names, templates and generated source are lists of Unicode characters, so that every function on
them is a structural recursion. Cutting at a separator, cutting off blanks and the order of texts are
defined here; the order is by code point, which is also the order of the UTF-8 bytes. -/
namespace EnumWire

abbrev Text := List Char

instance : Coe String Text := ⟨String.toList⟩

/-- The code points that have the property White_Space. -/
def isBlank (c : Char) : Bool :=
  let n := c.toNat
  (9 ≤ n && n ≤ 13) || n = 0x20 || n = 0x85 || n = 0xa0 || n = 0x1680 ||
    (0x2000 ≤ n && n ≤ 0x200a) || n = 0x2028 || n = 0x2029 || n = 0x202f || n = 0x205f || n = 0x3000

namespace Text

/-- The number of bytes of a text in UTF-8. -/
def utf8Size : Text → Nat
  | [] => 0
  | c :: rest => c.utf8Size + utf8Size rest

/-- The pieces between the separators: one more than there are separators, empty ones included. -/
def split (sep : Char) : Text → List Text
  | [] => [[]]
  | c :: rest =>
    if c = sep then [] :: split sep rest
    else match split sep rest with
      | [] => [[c]]
      | piece :: pieces => (c :: piece) :: pieces

/-- The parts before and after the first separator. -/
def splitFirst (sep : Char) : Text → Option (Text × Text)
  | [] => none
  | c :: rest =>
    if c = sep then some ([], rest)
    else (splitFirst sep rest).map fun (before, after) => (c :: before, after)

def trimLeft (t : Text) : Text := t.dropWhile isBlank

def trimRight (t : Text) : Text := (t.reverse.dropWhile isBlank).reverse

def trim (t : Text) : Text := trimRight (trimLeft t)

/-- Strict lexicographic order by code point. -/
def precedes : Text → Text → Bool
  | [], [] => false
  | [], _ :: _ => true
  | _ :: _, [] => false
  | a :: as, b :: bs => if a = b then precedes as bs else a.toNat < b.toNat

/-- Puts a text into an ascending list, which keeps each text once. -/
def insertOrdered (t : Text) : List Text → List Text
  | [] => [t]
  | u :: us => if t = u then u :: us else if precedes t u then t :: u :: us else u :: insertOrdered t us

/-- The distinct texts of a list, ascending. -/
def ascending (texts : List Text) : List Text :=
  texts.foldr insertOrdered []

theorem split_ne_nil (sep : Char) (t : Text) : split sep t ≠ [] := by
  cases t with
  | nil => simp [split]
  | cons c rest =>
    simp only [split]
    split
    · simp
    · split <;> simp

theorem intercalate_split (sep : Char) (t : Text) : [sep].intercalate (split sep t) = t := by
  induction t with
  | nil => rfl
  | cons c rest ih =>
    simp only [split]
    split
    · rename_i h
      subst h
      cases hs : split c rest with
      | nil => exact absurd hs (split_ne_nil c rest)
      | cons piece pieces =>
        rw [hs] at ih
        simp [List.intercalate, List.intersperse] at ih ⊢
        exact ih
    · cases hs : split sep rest with
      | nil => exact absurd hs (split_ne_nil sep rest)
      | cons piece pieces =>
        rw [hs] at ih
        cases pieces <;> simp_all [List.intercalate, List.intersperse]

theorem length_lt_of_splitFirst {sep : Char} {t before after : Text}
    (h : splitFirst sep t = some (before, after)) : after.length < t.length := by
  induction t generalizing before with
  | nil => cases h
  | cons c t ih =>
    rw [splitFirst] at h
    split at h
    · cases h
      exact Nat.lt_succ_self _
    · obtain ⟨_, hrest, heq⟩ := Option.map_eq_some_iff.1 h
      cases heq
      exact Nat.lt_succ_of_lt (ih hrest)

end Text
end EnumWire
