import EnumWire.Proofs.Files.Tree

/-! # Where directories are made

A directory is made only on the way of its path, where some of the first names lead. When all of
them are there, the path leads to the last one. -/
namespace EnumWire.Files.FileTree

open EnumWire.Files.Path

variable {tree made later : FileTree} {path other : Path} {location start next : Location}
  {name : Text} {names more parts : List Text}

/-! ### On the way -/

/-- Some of the first names, looked up from a start, lead to a location. -/
inductive Passes (tree : FileTree) : Location → List Text → Location → Prop
  | here {start : Location} {names : List Text} : Passes tree start names start
  | enter {start next location : Location} {name : Text} {names : List Text}
    (henter : tree.enter start name = .ok next) (hrest : Passes tree next names location) :
    Passes tree start (name :: names) location

/-- A location that is passed when a path is followed. -/
def OnWay (tree : FileTree) (path : Path) (location : Location) : Prop :=
  Passes tree (tree.startOf path) path.names location

/-- The names of a path lead to a location. -/
def LeadsTo (tree : FileTree) (path : Path) (location : Location) : Prop :=
  path.names.foldlM tree.enter (tree.startOf path) = .ok location

theorem Grows.passes (h : Grows tree later) (hpasses : Passes tree start names location) :
    Passes later start names location := by
  induction hpasses with
  | here => exact .here
  | enter henter _ ih => exact .enter (h.enter henter) ih

theorem Grows.onWay (h : Grows tree later) (hway : tree.OnWay path location) :
    later.OnWay path location := by
  rw [OnWay, h.startOf]
  exact h.passes hway

theorem Grows.leadsTo (h : Grows tree later) (hleads : tree.LeadsTo path location) :
    later.LeadsTo path location := by
  rw [LeadsTo, h.startOf]
  exact h.foldlM_enter hleads

theorem passes_of_foldlM_enter (h : names.foldlM tree.enter start = .ok location) :
    Passes tree start names location := by
  induction names generalizing start with
  | nil => exact Except.ok.inj h ▸ .here
  | cons name names ih =>
    obtain ⟨next, henter, hrest⟩ := foldlM_enter_cons_eq_ok_iff.1 h
    exact .enter henter (ih hrest)

theorem LeadsTo.onWay (h : tree.LeadsTo path location) : tree.OnWay path location :=
  passes_of_foldlM_enter h

theorem Passes.append (h : Passes tree start names location) (more : List Text) :
    Passes tree start (names ++ more) location := by
  induction h with
  | here => exact .here
  | enter henter _ ih => exact .enter henter ih

theorem Passes.of_append (h : Passes tree start (names ++ more) location) :
    Passes tree start names location ∨
      ∃ next, names.foldlM tree.enter start = .ok next ∧ Passes tree next more location := by
  induction names generalizing start with
  | nil => exact .inr ⟨start, rfl, h⟩
  | cons name names ih =>
    cases h with
    | here => exact .inl .here
    | enter henter hrest =>
      refine (ih hrest).imp (.enter henter) ?_
      rintro ⟨next, hnext, hpasses⟩
      exact ⟨next, foldlM_enter_cons_eq_ok_iff.2 ⟨_, henter, hnext⟩, hpasses⟩

/-- Plain names lead straight down. -/
theorem Passes.exists_eq_append (h : Passes tree start names location)
    (hplain : ∀ name ∈ names, IsPlain name) :
    ∃ parts, parts <+: names ∧ location = start ++ parts := by
  induction h with
  | here => exact ⟨[], List.nil_prefix, (List.append_nil _).symm⟩
  | @enter start next location name names henter _ ih =>
    rw [List.forall_mem_cons] at hplain
    obtain ⟨parts, hlead, rfl⟩ := ih hplain.2
    obtain ⟨-, -, -, rfl⟩ := (enter_of_isPlain hplain.1).1 henter
    refine ⟨name :: parts, List.cons_prefix_cons.2 ⟨rfl, hlead⟩, ?_⟩
    rw [List.append_assoc, List.singleton_append]

/-- A dot leads nowhere, so names with dots among them pass whatever the others pass. -/
theorem Passes.of_filter (h : Passes tree start (names.filter fun name => name ≠ ['.']) location) :
    Passes tree start names location := by
  induction names generalizing start with
  | nil => exact h
  | cons name names ih =>
    by_cases hdot : name = ['.']
    · rw [List.filter_cons_of_neg (by simpa using hdot)] at h
      cases ih h with
      | here => exact .here
      | enter henter hrest =>
        have hdirectory := (enter_eq_ok_iff.1 henter).1
        exact .enter (enter_eq_ok_iff.2 ⟨hdirectory, .inl ⟨hdot, rfl⟩⟩) (.enter henter hrest)
    · rw [List.filter_cons_of_pos (by simpa using hdot)] at h
      cases h with
      | here => exact .here
      | enter henter hrest => exact .enter henter (ih hrest)

theorem Passes.of_plainNames (h : Passes tree start path.plainNames location) :
    Passes tree start path.names location := by
  unfold plainNames at h
  split at h
  · rename_i hnames
    rw [hnames]
    exact h
  · rename_i first rest hnames
    rw [hnames]
    dsimp only at h
    split at h
    · rename_i hdot
      have hfirst : first = ['.'] := of_decide_eq_true (Bool.and_eq_true_iff.1 hdot).1
      refine .of_filter ?_
      rwa [List.filter_cons_of_neg (by simpa using hfirst)]
    · cases h with
      | here => exact .here
      | enter henter hrest => exact .enter henter hrest.of_filter

/-! ### Joined paths -/

/-- Where a path starts that is joined to one that leads to a root. -/
def startBelow (root : Location) (part : Path) : Location := if part.isAbsolute then [] else root

theorem LeadsTo.eq_of_join {root : Location} {base part : Path} (hroot : tree.LeadsTo base root)
    (hplain : ∀ name ∈ part.names, IsPlain name) (h : tree.LeadsTo (join base part) location) :
    location = startBelow root part ++ part.names := by
  unfold startBelow
  cases habsolute : part.isAbsolute with
  | true =>
    rw [join_of_isAbsolute habsolute, LeadsTo, startOf, if_pos habsolute] at h
    exact eq_append_of_foldlM_enter hplain h
  | false =>
    rw [LeadsTo, names_join habsolute, startOf, isAbsolute_join habsolute] at h
    obtain ⟨next, hnext, hrest⟩ := foldlM_enter_append_eq_ok_iff.1 h
    obtain rfl := Except.ok.inj (hroot.symm.trans hnext)
    exact eq_append_of_foldlM_enter hplain hrest

theorem OnWay.of_join {root : Location} {base part : Path} (hroot : tree.LeadsTo base root)
    (hplain : ∀ name ∈ part.names, IsPlain name) (h : tree.OnWay (join base part) location) :
    tree.OnWay base location ∨
      ∃ parts, parts <+: part.names ∧ location = startBelow root part ++ parts := by
  unfold startBelow
  cases habsolute : part.isAbsolute with
  | true =>
    rw [join_of_isAbsolute habsolute, OnWay, startOf, if_pos habsolute] at h
    exact .inr (h.exists_eq_append hplain)
  | false =>
    rw [OnWay, names_join habsolute, startOf, isAbsolute_join habsolute] at h
    refine h.of_append.imp_right ?_
    rintro ⟨next, hnext, hpasses⟩
    obtain rfl := Except.ok.inj (hroot.symm.trans hnext)
    exact hpasses.exists_eq_append hplain

/-- A file is in the directory to which it is joined. -/
theorem exists_leadsTo_of_locate_join {base : Path} (hplain : IsPlain name)
    (h : tree.locate (join base name) = .ok location) :
    ∃ above, tree.LeadsTo base above ∧ location = above ++ [name] := by
  have habsolute := hplain.isName.isAbsolute_eq
  have hpath := hplain.endsIn_join base
  have hstart : tree.startOf (join base name) = tree.startOf base := by
    rw [startOf, startOf, isAbsolute_join habsolute]
  rw [locate, hpath.names_eq, hpath.endsWithSlash_eq, if_neg Bool.false_ne_true, List.append_nil,
    follow_eq_ok_iff, hstart] at h
  obtain ⟨above, habove, hlast⟩ := foldlM_enter_append_eq_ok_iff.1 h.2
  exact ⟨above, habove, eq_append_of_foldlM_enter (List.forall_mem_singleton.2 hplain) hlast⟩

/-! ### Making one directory -/

/-- What is made is a directory, where the path leads. -/
theorem WellFormed.makeDirectory_eq_ok (h : tree.WellFormed)
    (hmake : tree.makeDirectory path = .ok made) :
    ∃ location, made.LeadsTo path location ∧
      ∀ other, other ≠ location → made.find? other = tree.find? other := by
  have hgrows := (h.makeDirectory hmake).grows
  obtain ⟨above, hfollow, ⟨-, hfault⟩ | ⟨name, hnames, ⟨_, -, hfault⟩ | ⟨hmissing, rfl⟩⟩⟩ :=
    place_eq_ok hmake
  · cases hfault
  · cases hfault
  obtain ⟨hdirectory, hdot, hup, hlong, -⟩ :=
    enter_eq_notFound (h.isSome_of_follow hfollow) hmissing
  have hne : above ++ [name] ≠ [] := List.concat_ne_nil _ _
  refine ⟨above ++ [name], ?_, fun other hother => find?_put_of_ne hother _⟩
  rw [LeadsTo, hnames]
  refine foldlM_enter_append_eq_ok_iff.2 ⟨above, (follow_eq_ok_iff.1 (hgrows.follow hfollow)).2, ?_⟩
  refine foldlM_enter_cons_eq_ok_iff.2 ⟨above ++ [name], enter_eq_ok_iff.2 ?_, rfl⟩
  refine ⟨hgrows.directory_of_directory _ hdirectory, .inr (.inr ⟨hdot, hup, hlong, ?_, rfl⟩)⟩
  rw [find?_put_self hne]
  rfl

/-- Directories are new only on the way of a path. -/
def Makes (tree : FileTree) (path : Path) (made : FileTree) : Prop :=
  ∀ location, tree.find? location = none → made.find? location = some .directory →
    made.OnWay path location

theorem makes_self (tree : FileTree) (path : Path) : tree.Makes path tree := by
  intro location hnone hdirectory
  cases hnone.symm.trans hdirectory

theorem Makes.trans (h : tree.Makes path made) (hmade : Furnishes tree made)
    (hlater : made.Makes path later) (hgrows : Grows made later) : tree.Makes path later := by
  intro location hnone hdirectory
  obtain hsame | ⟨-, hthere⟩ := hmade.find?_eq location
  · exact hlater location (hsame.trans hnone) hdirectory
  · exact hgrows.onWay (h location hnone hthere)

theorem WellFormed.makes_settle (h : tree.WellFormed) (path : Path) :
    tree.Makes path (tree.settle path (tree.makeDirectory path)).2 := by
  cases hmake : tree.makeDirectory path with
  | error fault => exact makes_self tree path
  | ok made =>
    obtain ⟨place, hleads, hsame⟩ := h.makeDirectory_eq_ok hmake
    intro location hnone hdirectory
    by_cases hlocation : location = place
    · exact hlocation ▸ hleads.onWay
    · cases (hsame location hlocation ▸ hdirectory).symm.trans hnone

theorem leadsTo_of_locate (h : tree.locate path = .ok location) :
    ∃ location, tree.LeadsTo path location := by
  obtain ⟨place, hnames, -⟩ := foldlM_enter_append_eq_ok_iff.1 (follow_eq_ok_iff.1 h).2
  exact ⟨place, hnames⟩

theorem leadsTo_of_isDirectory (h : tree.isDirectory path = true) :
    ∃ location, tree.LeadsTo path location := by
  unfold isDirectory at h
  split at h
  · rename_i location hlocate
    exact leadsTo_of_locate hlocate
  · cases h

theorem WellFormed.leadsTo_settle (h : tree.WellFormed)
    (hok : (tree.settle path (tree.makeDirectory path)).1 = .ok ()) :
    ∃ location, (tree.settle path (tree.makeDirectory path)).2.LeadsTo path location := by
  cases hmake : tree.makeDirectory path with
  | ok made =>
    obtain ⟨location, hleads, -⟩ := h.makeDirectory_eq_ok hmake
    exact ⟨location, hleads⟩
  | error fault =>
    rw [hmake, FileTree.settle] at hok
    split at hok
    · rename_i hdirectory
      exact leadsTo_of_isDirectory hdirectory
    · cases hok

/-! ### Making those above it -/

theorem WellFormed.makes_makeBelow (h : tree.WellFormed) {above : Except Fault Unit × FileTree}
    (habove : Furnishes tree above.2) (hmakes : tree.Makes path above.2) :
    tree.Makes path (tree.makeBelow path above).2 := by
  unfold FileTree.makeBelow
  split
  · split
    · exact hmakes.trans habove (habove.wellFormed.makes_settle path)
        (habove.wellFormed.settle path path).grows
    · exact hmakes
  · exact h.makes_settle path

theorem WellFormed.leadsTo_makeBelow (h : tree.WellFormed) {above : Except Fault Unit × FileTree}
    (habove : Furnishes tree above.2) (hok : (tree.makeBelow path above).1 = .ok ()) :
    ∃ location, (tree.makeBelow path above).2.LeadsTo path location := by
  unfold FileTree.makeBelow at hok ⊢
  split at hok
  · split at hok
    · exact habove.wellFormed.leadsTo_settle hok
    · rename_i hfailed
      exact (hfailed above.2 (Prod.ext hok rfl)).elim
  · exact h.leadsTo_settle hok

/-- What is on the way of the first names of a path is on the way of the path. -/
theorem Makes.of_ofNames {absolute : Bool} (h : tree.Makes (ofNames absolute parts) made)
    (habsolute : path.isAbsolute = absolute) (hparts : ∀ part ∈ parts, IsName part)
    (hnames : ∀ {start location}, Passes made start parts location →
      Passes made start path.names location) : tree.Makes path made := by
  intro location hnone hdirectory
  have hway := h location hnone hdirectory
  rw [OnWay, names_ofNames hparts, startOf, isAbsolute_ofNames hparts, ← habsolute] at hway
  exact hnames hway

theorem WellFormed.makes_makeNames (h : tree.WellFormed) (absolute : Bool)
    (hnames : ∀ name ∈ names, IsName name) :
    tree.Makes (ofNames absolute names.reverse) (tree.makeNames absolute names).2 := by
  induction names with
  | nil => exact makes_self tree _
  | cons name above ih =>
    have hall : ∀ part ∈ (name :: above).reverse, IsName part := fun part hpart =>
      hnames part (List.mem_reverse.1 hpart)
    rw [List.forall_mem_cons] at hnames
    refine h.makes_makeBelow (h.makeNames absolute above) ?_
    refine (ih hnames.2).of_ofNames (isAbsolute_ofNames hall)
      (fun part hpart => hnames.2 part (List.mem_reverse.1 hpart)) fun hpasses => ?_
    rw [names_ofNames hall, List.reverse_cons]
    exact hpasses.append [name]

theorem WellFormed.makes_makeDirectories (h : tree.WellFormed) (path : Path) :
    tree.Makes path (tree.makeDirectories path).2 := by
  have hnames : ∀ name ∈ path.plainNames.dropLast, IsName name := fun name hname =>
    isName_of_mem_names (mem_names_of_mem_plainNames (List.dropLast_subset _ hname))
  have hmakes := h.makes_makeNames path.isAbsolute
    fun name hname => hnames name (List.mem_reverse.1 hname)
  rw [List.reverse_reverse] at hmakes
  unfold FileTree.makeDirectories
  rw [List.tail_reverse]
  split
  · exact makes_self tree path
  · refine h.makes_makeBelow (h.makeNames _ _) (hmakes.of_ofNames rfl hnames fun hpasses => ?_)
    obtain ⟨last, hlast⟩ := path.plainNames.dropLast_prefix
    have hplain := hpasses.append last
    rw [hlast] at hplain
    exact hplain.of_plainNames

theorem WellFormed.leadsTo_makeDirectories (h : tree.WellFormed)
    (hok : (tree.makeDirectories path).1 = .ok ()) :
    ∃ location, (tree.makeDirectories path).2.LeadsTo path location := by
  unfold FileTree.makeDirectories at hok ⊢
  split at hok
  · rename_i hnil
    rw [if_pos hnil, hnil]
    exact ⟨_, rfl⟩
  · rename_i hne
    rw [if_neg hne]
    exact h.leadsTo_makeBelow (h.makeNames _ _) hok

end EnumWire.Files.FileTree
