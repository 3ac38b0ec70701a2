import EnumWire.Files.Tree
import EnumWire.Proofs.Files.Path
import EnumWire.Proofs.Traversal

/-! # What operations do to a tree

A tree is well-formed when every entry stands in a directory. From such a tree an operation that
makes directories comes to one that only has more of them, and one that writes a file comes to one
that has its text where the path leads. A path leads to the same place in every later tree. -/
namespace EnumWire.Files.FileTree

open Traversal

variable {tree made later : FileTree} {path : Path} {location start place above : Location}
  {name : Text} {names : List Text} {entry : Entry} {content : Text}

/-- Every entry stands in a directory, and relative paths start at one. -/
structure WellFormed (tree : FileTree) : Prop where
  above : ∀ location, (tree.find? location).isSome → tree.find? location.dropLast = some .directory
  current : tree.find? tree.current = some .directory

theorem wellFormed_empty : WellFormed {} where
  above location h := by
    by_cases hroot : location = []
    · rw [hroot]
      rfl
    · rw [find?, if_neg hroot] at h
      cases h
  current := rfl

/-! ### Later trees -/

/-- What was there still is, and the directories are directories. -/
structure Grows (tree later : FileTree) : Prop where
  current_eq : later.current = tree.current
  isSome_of_isSome : ∀ location, (tree.find? location).isSome → (later.find? location).isSome
  directory_of_directory : ∀ location, tree.find? location = some .directory →
    later.find? location = some .directory

theorem Grows.refl (tree : FileTree) : Grows tree tree := ⟨rfl, fun _ => id, fun _ => id⟩

theorem Grows.trans (h : Grows tree made) (hlater : Grows made later) : Grows tree later where
  current_eq := hlater.current_eq.trans h.current_eq
  isSome_of_isSome location hsome :=
    hlater.isSome_of_isSome location (h.isSome_of_isSome location hsome)
  directory_of_directory location hdirectory :=
    hlater.directory_of_directory location (h.directory_of_directory location hdirectory)

/-! ### Looking names up -/

/-- A name in a directory leads nowhere, up, or to an entry below. -/
theorem enter_eq_ok_iff : tree.enter location name = .ok place ↔
    tree.find? location = some .directory ∧
      (name = "." ∧ place = location ∨ name = ".." ∧ place = location.dropLast ∨
        name ≠ "." ∧ name ≠ ".." ∧ Text.utf8Size name ≤ maxNameSize ∧
          (tree.find? (location ++ [name])).isSome ∧ place = location ++ [name]) := by
  have hdots : (".".toList : Text) ≠ "..".toList := by decide
  unfold enter
  split
  · rename_i hnone
    rw [hnone]
    exact ⟨nofun, nofun⟩
  · rename_i hdirectory
    rw [hdirectory, and_iff_right rfl]
    split_ifs with hdot hup hlong hsome
    · subst hdot
      simp only [true_and, hdots, false_and, ne_eq, not_true_eq_false, or_false, Except.ok.injEq,
        eq_comm]
    · subst hup
      simp only [true_and, hdots.symm, false_and, ne_eq, not_true_eq_false, and_false, or_false,
        false_or, Except.ok.injEq, eq_comm]
    · simp only [hdot, hup, Nat.not_le.2 hlong, false_and, and_false, or_false]
    · simp only [hdot, hup, Nat.not_lt.1 hlong, hsome, false_and, false_or, ne_eq,
        not_false_eq_true, true_and, Except.ok.injEq, eq_comm]
    · simp only [hdot, hup, hsome, false_and, and_false, or_false, reduceCtorEq]
  · rename_i other hother hdirectory
    refine ⟨nofun, fun ⟨hfound, _⟩ => ?_⟩
    rw [hdirectory] at hfound
    exact absurd (Option.some.inj hfound) hother

theorem Grows.enter (h : Grows tree later) (henter : tree.enter location name = .ok place) :
    later.enter location name = .ok place := by
  rw [enter_eq_ok_iff] at henter ⊢
  obtain ⟨hdirectory, hcases⟩ := henter
  refine ⟨h.directory_of_directory _ hdirectory, hcases.imp_right (Or.imp_right ?_)⟩
  exact fun ⟨hdot, hup, hlong, hsome, hplace⟩ =>
    ⟨hdot, hup, hlong, h.isSome_of_isSome _ hsome, hplace⟩

theorem foldlM_enter_cons_eq_ok_iff : (name :: names).foldlM tree.enter start = .ok place ↔
    ∃ next, tree.enter start name = .ok next ∧ names.foldlM tree.enter next = .ok place := by
  rw [List.foldlM_cons]
  exact bind_eq_ok

theorem foldlM_enter_append_eq_ok_iff {more : List Text} :
    (names ++ more).foldlM tree.enter start = .ok place ↔
      ∃ next, names.foldlM tree.enter start = .ok next ∧
        more.foldlM tree.enter next = .ok place := by
  rw [List.foldlM_append]
  exact bind_eq_ok

theorem Grows.foldlM_enter (h : Grows tree later)
    (hnames : names.foldlM tree.enter start = .ok place) :
    names.foldlM later.enter start = .ok place := by
  induction names generalizing start with
  | nil => exact hnames
  | cons name names ih =>
    obtain ⟨next, henter, hrest⟩ := foldlM_enter_cons_eq_ok_iff.1 hnames
    exact foldlM_enter_cons_eq_ok_iff.2 ⟨next, h.enter henter, ih hrest⟩

/-- Plain names lead straight down. -/
theorem eq_append_of_foldlM_enter (hplain : ∀ name ∈ names, Path.IsPlain name)
    (h : names.foldlM tree.enter start = .ok place) : place = start ++ names := by
  induction names generalizing start with
  | nil => rw [List.append_nil, Except.ok.inj h]
  | cons name names ih =>
    rw [List.forall_mem_cons] at hplain
    obtain ⟨next, henter, hrest⟩ := foldlM_enter_cons_eq_ok_iff.1 h
    obtain ⟨-, ⟨hdot, -⟩ | ⟨hup, -⟩ | ⟨-, -, -, -, rfl⟩⟩ := enter_eq_ok_iff.1 henter
    · exact absurd hdot hplain.1.ne_dot
    · exact absurd hup hplain.1.ne_dots
    · rw [ih hplain.2 hrest, List.append_assoc, List.singleton_append]

theorem WellFormed.isSome_of_enter (h : tree.WellFormed)
    (henter : tree.enter location name = .ok place) : (tree.find? place).isSome := by
  obtain ⟨hdirectory, ⟨-, rfl⟩ | ⟨-, rfl⟩ | ⟨-, -, -, hsome, rfl⟩⟩ := enter_eq_ok_iff.1 henter
  · exact Option.isSome_of_mem hdirectory
  · exact Option.isSome_of_mem (h.above _ (Option.isSome_of_mem hdirectory))
  · exact hsome

theorem WellFormed.isSome_of_foldlM_enter (h : tree.WellFormed) (hstart : (tree.find? start).isSome)
    (hnames : names.foldlM tree.enter start = .ok place) : (tree.find? place).isSome := by
  induction names generalizing start with
  | nil => exact Except.ok.inj hnames ▸ hstart
  | cons name names ih =>
    obtain ⟨next, henter, hrest⟩ := foldlM_enter_cons_eq_ok_iff.1 hnames
    exact ih (h.isSome_of_enter henter) hrest

/-- Where the names of a path are looked up first. -/
def startOf (tree : FileTree) (path : Path) : Location :=
  if path.isAbsolute then [] else tree.current

theorem follow_eq_ok_iff : tree.follow path names = .ok place ↔
    checkPath path = .ok () ∧ names.foldlM tree.enter (tree.startOf path) = .ok place := by
  refine bind_eq_ok.trans ⟨fun ⟨_, hcheck, hnames⟩ => ⟨hcheck, hnames⟩, fun ⟨hcheck, hnames⟩ => ?_⟩
  exact ⟨(), hcheck, hnames⟩

theorem WellFormed.isSome_of_follow (h : tree.WellFormed)
    (hfollow : tree.follow path names = .ok place) : (tree.find? place).isSome := by
  refine h.isSome_of_foldlM_enter ?_ (follow_eq_ok_iff.1 hfollow).2
  unfold startOf
  split
  · rfl
  · exact Option.isSome_of_mem h.current

theorem Grows.startOf (h : Grows tree later) (path : Path) :
    later.startOf path = tree.startOf path := by
  rw [FileTree.startOf, FileTree.startOf, h.current_eq]

theorem Grows.follow (h : Grows tree later) (hfollow : tree.follow path names = .ok place) :
    later.follow path names = .ok place := by
  rw [follow_eq_ok_iff] at hfollow ⊢
  rw [h.startOf]
  exact ⟨hfollow.1, h.foldlM_enter hfollow.2⟩

theorem Grows.locate (h : Grows tree later) (hlocate : tree.locate path = .ok place) :
    later.locate path = .ok place :=
  h.follow hlocate

theorem read_of_locate (hlocate : tree.locate path = .ok location)
    (hfound : tree.find? location = some (.text content)) : tree.read path = .ok content := by
  rw [read, hlocate]
  simp only [Except.bind, hfound]

/-! ### An entry more -/

theorem put_grows (hroot : location ≠ [])
    (hentry : tree.find? location = some .directory → entry = .directory) :
    Grows tree (tree.put location entry) where
  current_eq := rfl
  isSome_of_isSome other hsome := by
    by_cases hother : other = location
    · rw [hother, find?_put_self hroot]
      rfl
    · rwa [find?_put_of_ne hother]
  directory_of_directory other hdirectory := by
    by_cases hother : other = location
    · rw [hother, find?_put_self hroot, hentry (hother ▸ hdirectory)]
    · rwa [find?_put_of_ne hother]

theorem WellFormed.put (h : tree.WellFormed) (hroot : location ≠ [])
    (habove : tree.find? location.dropLast = some .directory)
    (hentry : tree.find? location = some .directory → entry = .directory) :
    (tree.put location entry).WellFormed where
  above other hsome := by
    refine (put_grows hroot hentry).directory_of_directory _ ?_
    by_cases hother : other = location
    · rwa [hother]
    · rw [find?_put_of_ne hother] at hsome
      exact h.above other hsome
  current := (put_grows hroot hentry).directory_of_directory _ h.current

/-! ### Putting an entry at the end of a path -/

/-- In a directory a name is missing when it would be an entry of its own. -/
theorem enter_eq_notFound (hsome : (tree.find? above).isSome)
    (h : tree.enter above name = .error .notFound) :
    tree.find? above = some .directory ∧ name ≠ "." ∧ name ≠ ".." ∧
      Text.utf8Size name ≤ maxNameSize ∧ tree.find? (above ++ [name]) = none := by
  unfold enter at h
  split at h
  · rename_i hnone
    rw [hnone] at hsome
    cases hsome
  · rename_i hdirectory
    split_ifs at h with hdot hup hlong hfound
    · cases h
    · exact ⟨hdirectory, hdot, hup, Nat.not_lt.1 hlong, Option.not_isSome_iff_eq_none.1 hfound⟩
  · cases h

/-- An entry is placed where nothing was; else what is there decides. -/
theorem place_eq_ok {replace : Location → Except Fault FileTree}
    (h : tree.place path entry replace = .ok made) :
    ∃ above, tree.follow path path.names.dropLast = .ok above ∧
      (path.names = [] ∧ replace above = .ok made ∨
        ∃ name, path.names = path.names.dropLast ++ [name] ∧
          ((∃ location, tree.enter above name = .ok location ∧ replace location = .ok made) ∨
            tree.enter above name = .error .notFound ∧
              made = tree.put (above ++ [name]) entry)) := by
  obtain ⟨above, hfollow, hlast⟩ := bind_eq_ok.1 h
  refine ⟨above, hfollow, ?_⟩
  cases hname : path.names.getLast? with
  | none =>
    rw [hname] at hlast
    exact .inl ⟨List.getLast?_eq_none_iff.1 hname, hlast⟩
  | some name =>
    refine .inr ⟨name, (List.dropLast_append_getLast? name hname).symm, ?_⟩
    simp only [hname] at hlast
    split at hlast
    · rename_i location henter
      exact .inl ⟨location, henter, hlast⟩
    · rename_i henter
      exact .inr ⟨henter, (Except.ok.inj hlast).symm⟩
    · cases hlast

theorem enter_of_isPlain (hplain : Path.IsPlain name) : tree.enter above name = .ok place ↔
    tree.find? above = some .directory ∧ Text.utf8Size name ≤ maxNameSize ∧
      (tree.find? (above ++ [name])).isSome ∧ place = above ++ [name] := by
  rw [enter_eq_ok_iff]
  simp only [hplain.ne_dot, hplain.ne_dots, false_and, false_or, ne_eq, not_false_eq_true,
    true_and]

/-- A file that was written is where its path leads, below a directory. -/
theorem WellFormed.write_eq_ok (h : tree.WellFormed) (hpath : path.EndsIn names name)
    (hwrite : tree.write path content = .ok made) :
    ∃ above, tree.follow path names = .ok above ∧ tree.find? above = some .directory ∧
      tree.find? (above ++ [name]) ≠ some .directory ∧
      made = tree.put (above ++ [name]) (.text content) ∧
      made.locate path = .ok (above ++ [name]) := by
  obtain ⟨above, hfollow, hlast⟩ := place_eq_ok hwrite
  rw [hpath.names_eq, List.dropLast_concat] at hfollow hlast
  have hput : tree.find? above = some .directory ∧ Text.utf8Size name ≤ maxNameSize ∧
      tree.find? (above ++ [name]) ≠ some .directory ∧
      made = tree.put (above ++ [name]) (.text content) := by
    obtain ⟨hnil, -⟩ | ⟨other, hother, hlast⟩ := hlast
    · exact absurd hnil (List.concat_ne_nil _ _)
    obtain rfl := List.singleton_inj.1 (List.append_cancel_left hother)
    obtain ⟨location, henter, hreplace⟩ | ⟨hmissing, hmade⟩ := hlast
    · obtain ⟨hdirectory, hlong, -, rfl⟩ := (enter_of_isPlain hpath.isPlain).1 henter
      split_ifs at hreplace with hreplaced
      exact ⟨hdirectory, hlong, hreplaced, (Except.ok.inj hreplace).symm⟩
    · obtain ⟨hdirectory, -, -, hlong, hnone⟩ :=
        enter_eq_notFound (h.isSome_of_follow hfollow) hmissing
      refine ⟨hdirectory, hlong, ?_, hmade⟩
      rw [hnone]
      nofun
  obtain ⟨hdirectory, hlong, hfree, rfl⟩ := hput
  refine ⟨above, hfollow, hdirectory, hfree, rfl, ?_⟩
  have hne : above ++ [name] ≠ [] := List.concat_ne_nil _ _
  have hgrows : Grows tree (tree.put (above ++ [name]) (.text content)) :=
    put_grows hne fun hfound => absurd hfound hfree
  obtain ⟨hcheck, hnames⟩ := follow_eq_ok_iff.1 (hgrows.follow hfollow)
  rw [locate, hpath.names_eq, hpath.endsWithSlash_eq, if_neg Bool.false_ne_true, List.append_nil,
    follow_eq_ok_iff]
  refine ⟨hcheck, foldlM_enter_append_eq_ok_iff.2 ⟨above, hnames, ?_⟩⟩
  refine foldlM_enter_cons_eq_ok_iff.2 ⟨above ++ [name], (enter_of_isPlain hpath.isPlain).2 ?_, rfl⟩
  refine ⟨hgrows.directory_of_directory _ hdirectory, hlong, ?_, rfl⟩
  rw [find?_put_self hne]
  rfl

/-! ### Making directories -/

/-- A later tree that has more directories and is else the same. -/
structure Furnishes (tree made : FileTree) : Prop where
  wellFormed : made.WellFormed
  current_eq : made.current = tree.current
  find?_eq : ∀ location, made.find? location = tree.find? location ∨
    tree.find? location = none ∧ made.find? location = some .directory

theorem WellFormed.furnishes_self (h : tree.WellFormed) : Furnishes tree tree :=
  ⟨h, rfl, fun _ => .inl rfl⟩

theorem Furnishes.trans (h : Furnishes tree made) (hlater : Furnishes made later) :
    Furnishes tree later where
  wellFormed := hlater.wellFormed
  current_eq := hlater.current_eq.trans h.current_eq
  find?_eq location := by
    obtain hsame | ⟨hnone, hdirectory⟩ := hlater.find?_eq location
    · rw [hsame]
      exact h.find?_eq location
    · refine .inr ⟨?_, hdirectory⟩
      obtain hsame | ⟨hnone, -⟩ := h.find?_eq location
      · exact hsame ▸ hnone
      · exact hnone

theorem Furnishes.grows (h : Furnishes tree made) : Grows tree made where
  current_eq := h.current_eq
  isSome_of_isSome location hsome := by
    obtain hsame | ⟨-, hdirectory⟩ := h.find?_eq location
    · rwa [hsame]
    · exact Option.isSome_of_mem hdirectory
  directory_of_directory location hfound := by
    obtain hsame | ⟨-, hdirectory⟩ := h.find?_eq location
    · rwa [hsame]
    · exact hdirectory

theorem WellFormed.makeDirectory (h : tree.WellFormed)
    (hmake : tree.makeDirectory path = .ok made) : Furnishes tree made := by
  obtain ⟨above, hfollow, ⟨-, hfault⟩ | ⟨name, -, ⟨_, -, hfault⟩ | ⟨hmissing, rfl⟩⟩⟩ :=
    place_eq_ok hmake
  · cases hfault
  · cases hfault
  obtain ⟨hdirectory, -, -, -, hnone⟩ := enter_eq_notFound (h.isSome_of_follow hfollow) hmissing
  have hne : above ++ [name] ≠ [] := List.concat_ne_nil _ _
  refine ⟨h.put hne ?_ fun _ => rfl, rfl, fun location => ?_⟩
  · rwa [List.dropLast_concat]
  · by_cases hlocation : location = above ++ [name]
    · rw [hlocation, find?_put_self hne]
      exact .inr ⟨hnone, rfl⟩
    · exact .inl (find?_put_of_ne hlocation _)

theorem WellFormed.settle (h : tree.WellFormed) (path other : Path) :
    Furnishes tree (tree.settle path (tree.makeDirectory other)).2 := by
  cases hmake : tree.makeDirectory other with
  | ok made => exact h.makeDirectory hmake
  | error fault => exact h.furnishes_self

theorem WellFormed.makeBelow (h : tree.WellFormed) (path : Path)
    {above : Except Fault Unit × FileTree} (habove : Furnishes tree above.2) :
    Furnishes tree (tree.makeBelow path above).2 := by
  unfold FileTree.makeBelow
  split
  · split
    · exact habove.trans (habove.wellFormed.settle path path)
    · exact habove
  · exact h.settle path path

theorem WellFormed.makeNames (h : tree.WellFormed) (absolute : Bool) (names : List Text) :
    Furnishes tree (tree.makeNames absolute names).2 := by
  induction names with
  | nil => exact h.furnishes_self
  | cons name above ih => exact h.makeBelow _ ih

/-- What was there stays, and what is new is directories, also when the making fails. -/
theorem WellFormed.makeDirectories (h : tree.WellFormed) (path : Path) :
    Furnishes tree (tree.makeDirectories path).2 := by
  unfold FileTree.makeDirectories
  split
  · exact h.furnishes_self
  · exact h.makeBelow path (h.makeNames _ _)

end EnumWire.Files.FileTree
