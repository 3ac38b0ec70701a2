import EnumWire.Generated.Names
import Mathlib

/-! # Words in the case styles

A name of several words has underscores between them, or each of them begins with an upper-case
letter. Where every word goes on after its first letter with lower-case letters or digits, the styles
turn into each other. On all other names a style may lose where the words are, but to take on a style
twice is to take it on once. -/
namespace EnumWire.CaseStyle

/-- A lower-case letter and, behind it, one or more lower-case letters or digits. -/
structure Word where
  first : Char
  rest : Text
  first_isLower : first.isLower = true
  rest_ne_nil : rest ≠ []
  rest_isLower_or_isDigit : ∀ c ∈ rest, (c.isLower || c.isDigit) = true

namespace Word

def text (word : Word) : Text := word.first :: word.rest

def capitalized (word : Word) : Text := word.first.toUpper :: word.rest

end Word

/-- The words with underscores between them. -/
def joined (words : List Word) : Text := ['_'].intercalate (words.map Word.text)

def upperCamel (words : List Word) : Text := words.flatMap Word.capitalized

/-- The first word stays as it is. -/
def lowerCamel : List Word → Text
  | [] => []
  | word :: words => word.text ++ upperCamel words

variable {c : Char} {t run : Text} {word : Word} {words : List Word}

/-! ### Characters -/

theorem isUpper_eq_false (h : (c.isLower || c.isDigit) = true) : c.isUpper = false := by
  rcases Bool.or_eq_true_iff.1 h with hlower | hdigit
  · exact Bool.eq_false_iff.2 (Char.not_isUpper_of_isLower hlower)
  · have hrange := Char.isDigit_iff_toNat.1 hdigit
    have hnine : '9'.toNat = 57 := rfl
    have hupper : c.isUpper = true ↔ 65 ≤ c.toNat ∧ c.toNat ≤ 90 := by
      simp [Char.isUpper, UInt32.le_iff_toNat_le]
    rw [← Bool.not_eq_true, hupper]
    omega

theorem ne_underscore (h : (c.isLower || c.isDigit) = true) : c ≠ '_' := by
  rintro rfl
  exact absurd h (by decide)

theorem toUpper_ne_underscore (h : c ≠ '_') : c.toUpper ≠ '_' := by
  intro heq
  by_cases hlower : c.isLower = true
  · have hupper : c.toUpper.isUpper = true := by simp [Char.isAlpha, hlower]
    rw [heq] at hupper
    exact absurd hupper (by decide)
  · exact h ((Char.toUpper_eq_of_not_isLower hlower).symm.trans heq)

/-! ### Snake case -/

theorem isUpper_of_mem_snakeFrom {afterLower : Bool} (h : c ∈ snakeFrom afterLower t) :
    c.isUpper = false := by
  fun_induction snakeFrom afterLower t with
  | case1 => cases h
  | case2 d rest hupper ih =>
    rcases List.mem_cons.1 h with rfl | h
    · decide
    rcases List.mem_cons.1 h with rfl | h
    · simp
    · exact ih h
  | case3 afterLower d rest hupper hafter ih =>
    rcases List.mem_cons.1 h with rfl | h
    · simp
    · exact ih h
  | case4 afterLower d rest hupper ih =>
    rcases List.mem_cons.1 h with rfl | h
    · exact Bool.eq_false_iff.2 hupper
    · exact ih h

theorem snakeFrom_of_not_isUpper (afterLower : Bool) (h : ∀ c ∈ t, c.isUpper = false) :
    snakeFrom afterLower t = t := by
  induction t generalizing afterLower with
  | nil => rfl
  | cons d rest ih =>
    obtain ⟨hd, hrest⟩ := List.forall_mem_cons.1 h
    simp [snakeFrom, hd, ih _ hrest]

/-- What comes after lower-case letters and digits is read as coming after one of them. -/
theorem snakeFrom_append (afterLower : Bool) (hne : run ≠ [])
    (h : ∀ c ∈ run, (c.isLower || c.isDigit) = true) (t : Text) :
    snakeFrom afterLower (run ++ t) = run ++ snakeFrom true t := by
  induction run generalizing afterLower with
  | nil => exact absurd rfl hne
  | cons d rest ih =>
    obtain ⟨hd, hrest⟩ := List.forall_mem_cons.1 h
    have hupper := isUpper_eq_false hd
    cases rest with
    | nil => simp [snakeFrom, hupper, hd]
    | cons e rest =>
      have hgo := ih (d.isLower || d.isDigit) (List.cons_ne_nil e rest) hrest
      simpa [snakeFrom, hupper] using hgo

namespace Word

theorem isLower_or_isDigit_of_mem_text (h : c ∈ word.text) : (c.isLower || c.isDigit) = true := by
  rcases List.mem_cons.1 h with rfl | h
  · simp [word.first_isLower]
  · exact word.rest_isLower_or_isDigit c h

theorem isAlpha_first (word : Word) : word.first.isAlpha = true := by
  simp [Char.isAlpha, word.first_isLower]

theorem toLower_first (word : Word) : word.first.toLower = word.first :=
  Char.toLower_eq_of_not_isUpper (Char.not_isUpper_of_isLower word.first_isLower)

theorem snakeFrom_text (afterLower : Bool) (word : Word) (t : Text) :
    snakeFrom afterLower (word.text ++ t) = word.text ++ snakeFrom true t :=
  snakeFrom_append afterLower (List.cons_ne_nil _ _)
    (fun _ => isLower_or_isDigit_of_mem_text) t

theorem snakeFrom_capitalized (afterLower : Bool) (word : Word) (t : Text) :
    snakeFrom afterLower (word.capitalized ++ t) =
      (if afterLower then ['_'] else []) ++ word.text ++ snakeFrom true t := by
  have hrest := snakeFrom_append false word.rest_ne_nil word.rest_isLower_or_isDigit t
  cases afterLower with
  | true => simp [capitalized, text, snakeFrom, isAlpha_first, toLower_first, hrest]
  | false => simp [capitalized, text, snakeFrom, isAlpha_first, toLower_first, hrest]

end Word

theorem joined_cons (word : Word) (words : List Word) :
    joined (word :: words) = word.text ++ words.flatMap fun next => '_' :: next.text := by
  induction words generalizing word with
  | nil => simp [joined, List.intercalate]
  | cons next words ih =>
    have hgo := ih next
    simp only [joined, List.map_cons] at hgo ⊢
    rw [List.intercalate_cons_cons, hgo]
    simp

theorem snakeFrom_upperCamel (words : List Word) :
    snakeFrom true (upperCamel words) = words.flatMap fun next => '_' :: next.text := by
  induction words with
  | nil => rfl
  | cons next words ih =>
    rw [upperCamel, List.flatMap_cons, Word.snakeFrom_capitalized, ← upperCamel, ih]
    simp

theorem snake_upperCamel (words : List Word) : snake (upperCamel words) = joined words := by
  cases words with
  | nil => rfl
  | cons word words =>
    rw [snake, upperCamel, List.flatMap_cons, Word.snakeFrom_capitalized, ← upperCamel,
      snakeFrom_upperCamel, joined_cons]
    simp

theorem snake_lowerCamel (words : List Word) : snake (lowerCamel words) = joined words := by
  cases words with
  | nil => rfl
  | cons word words =>
    rw [snake, lowerCamel, Word.snakeFrom_text, snakeFrom_upperCamel, joined_cons]

theorem isUpper_of_mem_snake {name : Text} (h : c ∈ snake name) : c.isUpper = false :=
  isUpper_of_mem_snakeFrom h

theorem snake_snake (name : Text) : snake (snake name) = snake name :=
  snakeFrom_of_not_isUpper false fun _ => isUpper_of_mem_snake

theorem snake_joined (words : List Word) : snake (joined words) = joined words := by
  rw [← snake_upperCamel, snake_snake]

/-! ### Camel case -/

theorem underscore_not_mem_camelFrom (wordStart : Bool) (t : Text) :
    '_' ∉ camelFrom wordStart t := by
  fun_induction camelFrom wordStart t with
  | case1 => exact List.not_mem_nil
  | case2 wordStart rest ih => exact ih
  | case3 d rest hd ih =>
    rw [List.mem_cons, not_or]
    exact ⟨Ne.symm (toUpper_ne_underscore hd), ih⟩
  | case4 wordStart d rest hd hstart ih =>
    rw [List.mem_cons, not_or]
    exact ⟨Ne.symm hd, ih⟩

theorem camelFrom_append (h : '_' ∉ run) (t : Text) :
    camelFrom false (run ++ t) = run ++ camelFrom false t := by
  induction run with
  | nil => rfl
  | cons d rest ih =>
    rw [List.mem_cons, not_or] at h
    simp [camelFrom, Ne.symm h.1, ih h.2]

theorem camelFrom_of_not_mem (h : '_' ∉ t) : camelFrom false t = t := by
  have happend := camelFrom_append h []
  simpa [camelFrom] using happend

theorem camel_camel (name : Text) : camel (camel name) = camel name := by
  induction name with
  | nil => rfl
  | cons d rest ih =>
    by_cases hd : d = '_'
    · have hskip : camel (d :: rest) = camel rest := by simp [camel, camelFrom, hd]
      rw [hskip, ih]
    · have hrest := camelFrom_of_not_mem (underscore_not_mem_camelFrom false rest)
      simp [camel, camelFrom, hd, toUpper_ne_underscore hd, hrest]

theorem Word.underscore_not_mem_text (word : Word) : '_' ∉ word.text :=
  fun h => ne_underscore (isLower_or_isDigit_of_mem_text h) rfl

theorem Word.camelFrom_text (word : Word) (t : Text) :
    camelFrom true (word.text ++ t) = word.capitalized ++ camelFrom false t := by
  have hmem := word.underscore_not_mem_text
  rw [text, List.mem_cons, not_or] at hmem
  simp [text, capitalized, camelFrom, Ne.symm hmem.1, camelFrom_append hmem.2]

theorem camelFrom_underscored (words : List Word) :
    camelFrom false (words.flatMap fun next => '_' :: next.text) = upperCamel words := by
  induction words with
  | nil => rfl
  | cons next words ih =>
    rw [List.flatMap_cons, List.cons_append, camelFrom, if_pos rfl, Word.camelFrom_text, ih,
      upperCamel, upperCamel, List.flatMap_cons]

theorem camel_joined (words : List Word) : camel (joined words) = upperCamel words := by
  cases words with
  | nil => rfl
  | cons word words =>
    rw [camel, joined_cons, Word.camelFrom_text, camelFrom_underscored, upperCamel, upperCamel,
      List.flatMap_cons]

/-- Snake case sends words in any of the three forms to the words with underscores between them, and
camel case sends these to the words with upper-case initials: the two are inverse to each other.
Screaming case is that of the joined words for all three forms. Every name at all has no upper-case
letter in snake case and no underscore in camel case, and stays as it is in a style it has taken on. -/
theorem styles_invert (words : List Word) (name : Text) :
    (∀ form ∈ [joined words, lowerCamel words, upperCamel words], snake form = joined words ∧
      screaming form = (joined words).map Char.toUpper) ∧
    camel (joined words) = upperCamel words ∧
    Set.InvOn camel snake (Set.range upperCamel) (Set.range joined) ∧
    snake (snake name) = snake name ∧ camel (camel name) = camel name ∧
    (∀ c ∈ snake name, c.isUpper = false) ∧ '_' ∉ camel name := by
  have hforms : ∀ form ∈ [joined words, lowerCamel words, upperCamel words],
      snake form = joined words := by
    simp [snake_joined, snake_lowerCamel, snake_upperCamel]
  refine ⟨fun form hform => ?_, camel_joined words, ⟨?_, ?_⟩, snake_snake name, camel_camel name,
    fun c => isUpper_of_mem_snake, underscore_not_mem_camelFrom true name⟩
  · exact ⟨hforms form hform, congrArg (List.map Char.toUpper) (hforms form hform)⟩
  · rintro _ ⟨others, rfl⟩
    rw [snake_upperCamel, camel_joined]
  · rintro _ ⟨others, rfl⟩
    rw [camel_joined, snake_upperCamel]

-- Where an upper-case letter follows another one, the words are lost.
example : camel (snake "HTTPStatus".toList) = "Httpstatus".toList := by decide

end EnumWire.CaseStyle
