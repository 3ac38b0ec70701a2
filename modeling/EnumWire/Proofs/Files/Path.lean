import EnumWire.Files.Path
import EnumWire.Proofs.Text.Pieces

/-! # The names of joined paths

A path below another one starts where that one does and has its names first. -/
namespace EnumWire.Files.Path

variable {base part path : Path} {name : Text} {parts : List Text} {absolute : Bool}

/-- A text between the slashes of a path; dots may be one. -/
structure IsName (name : Text) : Prop where
  ne_nil : name ≠ []
  slash_not_mem : '/' ∉ name

/-- A name that leads down from a directory. -/
structure IsPlain (name : Text) : Prop where
  ne_nil : name ≠ []
  slash_not_mem : '/' ∉ name
  ne_dot : name ≠ "."
  ne_dots : name ≠ ".."

theorem IsPlain.isName (h : IsPlain name) : IsName name := ⟨h.ne_nil, h.slash_not_mem⟩

theorem isName_of_mem_names (h : name ∈ names path) : IsName name := by
  obtain ⟨hsplit, hne⟩ := List.mem_filter.1 h
  exact ⟨of_decide_eq_true hne, Text.sep_not_mem_of_mem_split hsplit⟩

theorem mem_names_of_mem_plainNames (h : name ∈ plainNames path) : name ∈ names path := by
  unfold plainNames at h
  split at h
  · cases h
  · rename_i first rest hnames
    rw [hnames]
    dsimp only at h
    split at h
    · exact List.mem_cons_of_mem _ (List.mem_of_mem_filter h)
    · rcases List.mem_cons.1 h with rfl | h
      · exact List.mem_cons_self
      · exact List.mem_cons_of_mem _ (List.mem_of_mem_filter h)

theorem names_append_slash (base part : Path) :
    names (base ++ '/' :: part) = names base ++ names part := by
  rw [names, Text.split_append_sep, List.filter_append]
  rfl

/-- A slash at the end of a path adds no name. -/
theorem names_append_of_endsWithSlash (h : endsWithSlash base = true) (part : Path) :
    names (base ++ part) = names base ++ names part := by
  obtain ⟨init, hinit⟩ := List.getLast?_eq_some_iff.1 (of_decide_eq_true h)
  rw [hinit, List.append_assoc, List.singleton_append, names_append_slash, names_append_slash]
  rw [show names [] = [] from rfl, List.append_nil]

theorem names_join (h : isAbsolute part = false) :
    names (join base part) = names base ++ names part := by
  rw [join, h, if_neg Bool.false_ne_true]
  by_cases hbase : base = []
  · rw [hbase]
    rfl
  · by_cases hslash : endsWithSlash base = true
    · rw [hslash, Bool.or_true, if_pos rfl, names_append_of_endsWithSlash hslash]
    · rw [Bool.not_eq_true] at hslash
      rw [hslash, Bool.or_false, if_neg (by simpa using hbase), names_append_slash]

theorem isAbsolute_append_of_ne_nil (h : base ≠ []) (rest : Path) :
    isAbsolute (base ++ rest) = isAbsolute base := by
  obtain ⟨c, base, rfl⟩ := List.exists_cons_of_ne_nil h
  rfl

theorem isAbsolute_join (h : isAbsolute part = false) :
    isAbsolute (join base part) = isAbsolute base := by
  rw [join, h, if_neg Bool.false_ne_true]
  by_cases hbase : base = []
  · rw [hbase]
    exact h
  · split <;> exact isAbsolute_append_of_ne_nil hbase _

theorem endsWithSlash_append_of_ne_nil (h : part ≠ []) (rest : Path) :
    endsWithSlash (rest ++ part) = endsWithSlash part := by
  rw [endsWithSlash, List.getLast?_append_of_ne_nil rest h]
  rfl

theorem endsWithSlash_join (h : part ≠ []) (habsolute : isAbsolute part = false) :
    endsWithSlash (join base part) = endsWithSlash part := by
  rw [join, habsolute, if_neg Bool.false_ne_true]
  split
  · exact endsWithSlash_append_of_ne_nil h base
  · rw [List.append_cons]
    exact endsWithSlash_append_of_ne_nil h _

/-- Names between single slashes are the names of their path. -/
theorem names_intercalate (h : ∀ part ∈ parts, IsName part) :
    names (['/'].intercalate parts) = parts := by
  by_cases hne : parts = []
  · rw [hne]
    rfl
  · rw [names, Text.split_intercalate hne fun part hpart => (h part hpart).slash_not_mem,
      List.filter_eq_self]
    exact fun part hpart => decide_eq_true (h part hpart).ne_nil

theorem names_ofNames (h : ∀ part ∈ parts, IsName part) :
    names (ofNames absolute parts) = parts := by
  cases absolute with
  | false => exact names_intercalate h
  | true => exact (names_append_slash [] _).trans (names_intercalate h)

theorem IsName.isAbsolute_append (h : IsName name) (rest : Path) :
    isAbsolute (name ++ rest) = false := by
  obtain ⟨c, name, rfl⟩ := List.exists_cons_of_ne_nil h.ne_nil
  refine decide_eq_false fun hc => h.slash_not_mem ?_
  exact List.mem_cons.2 (.inl (Option.some.inj hc).symm)

theorem IsName.isAbsolute_eq (h : IsName name) : isAbsolute name = false := by
  simpa using h.isAbsolute_append []

theorem isAbsolute_intercalate (h : ∀ part ∈ parts, IsName part) :
    isAbsolute (['/'].intercalate parts) = false := by
  cases parts with
  | nil => rfl
  | cons part rest =>
    rw [List.forall_mem_cons] at h
    cases rest with
    | nil => simpa using h.1.isAbsolute_append []
    | cons next rest =>
      rw [List.intercalate_cons_cons, List.append_assoc]
      exact h.1.isAbsolute_append _

theorem isAbsolute_ofNames (h : ∀ part ∈ parts, IsName part) :
    isAbsolute (ofNames absolute parts) = absolute := by
  cases absolute with
  | false => exact isAbsolute_intercalate h
  | true => rfl

/-- A path that ends in a plain name. -/
structure EndsIn (path : Path) (above : List Text) (name : Text) : Prop where
  names_eq : names path = above ++ [name]
  isPlain : IsPlain name
  endsWithSlash_eq : endsWithSlash path = false

theorem IsPlain.endsIn_join (h : IsPlain name) (base : Path) :
    EndsIn (join base name) (names base) name where
  names_eq := by
    have hname := names_intercalate (List.forall_mem_singleton.2 h.isName)
    rw [List.intercalate_singleton] at hname
    rw [names_join h.isName.isAbsolute_eq, hname]
  isPlain := h
  endsWithSlash_eq := by
    rw [endsWithSlash_join h.ne_nil h.isName.isAbsolute_eq]
    exact decide_eq_false fun hlast => h.slash_not_mem (List.mem_of_getLast? hlast)

end EnumWire.Files.Path
