import EnumWire.Proofs.Text.Order
import EnumWire.Schema.Package
import Mathlib.Data.List.Induction

/-! # Files grouped by package

Grouping leaves one file for each package that occurs, in the order of the bytes of the packages:
the definitions of all files of that package, in the order of the input. It depends on nothing but
which files each package has and in which order, and files that are grouped stay as they are. -/
namespace EnumWire.SchemaFile

variable {files others grouped parts : List SchemaFile} {file merged other : SchemaFile}
  {name : Text}

/-- The files of one package, in order. -/
def ofPackage (name : Text) (files : List SchemaFile) : List SchemaFile :=
  files.filter fun file => file.package = name

/-- The definitions of some files in order, under the description of the first one. -/
structure Merges (parts : List SchemaFile) (merged : SchemaFile) : Prop where
  description_eq : parts.head?.map description = some merged.description
  enums_eq : merged.enums = parts.flatMap enums
  messages_eq : merged.messages = parts.flatMap messages

/-- The packages ascend by their bytes. -/
def Ascending (files : List SchemaFile) : Prop :=
  files.Pairwise fun file other => Text.utf8 file.package < Text.utf8 other.package

/-- One file for each package, with the definitions of all of its files. -/
structure Groups (files grouped : List SchemaFile) : Prop where
  ascending : Ascending grouped
  mem_packages_iff : ∀ name, name ∈ grouped.map package ↔ name ∈ files.map package
  merges : ∀ merged ∈ grouped, Merges (ofPackage merged.package files) merged

/-! ### Merged files -/

theorem merges_singleton (file : SchemaFile) : Merges [file] file where
  description_eq := rfl
  enums_eq := (List.flatMap_singleton ..).symm
  messages_eq := (List.flatMap_singleton ..).symm

theorem Merges.append (h : Merges parts merged) (file : SchemaFile) :
    Merges (parts ++ [file]) (merged.append file) where
  description_eq := by
    obtain ⟨first, rest, rfl⟩ := List.exists_cons_of_ne_nil fun hnil : parts = [] => by
      simpa [hnil] using h.description_eq
    exact h.description_eq
  enums_eq := by simp [SchemaFile.append, h.enums_eq]
  messages_eq := by simp [SchemaFile.append, h.messages_eq]

theorem Merges.eq (h : Merges parts merged) (hother : Merges parts other)
    (hpackage : merged.package = other.package) : merged = other := by
  have hdescription := Option.some.inj (h.description_eq.symm.trans hother.description_eq)
  have henums := h.enums_eq.trans hother.enums_eq.symm
  have hmessages := h.messages_eq.trans hother.messages_eq.symm
  cases merged
  cases other
  simp_all

theorem ofPackage_append (name : Text) (files : List SchemaFile) (file : SchemaFile) :
    ofPackage name (files ++ [file]) =
      ofPackage name files ++ if file.package = name then [file] else [] := by
  simp [ofPackage, List.filter_append, List.filter_singleton]

theorem ofPackage_eq_nil_iff : ofPackage name files = [] ↔ name ∉ files.map package := by
  simp [ofPackage]

/-! ### Ascending packages -/

theorem Ascending.package_ne (h : Ascending (file :: files)) : ∀ other ∈ files,
    other.package ≠ file.package := fun _ hother heq =>
  List.lt_irrefl _ (heq ▸ List.rel_of_pairwise_cons h hother)

theorem Ascending.package_ne_of_lt (h : Ascending (file :: files))
    (hlt : Text.utf8 name < Text.utf8 file.package) :
    ∀ other ∈ files, other.package ≠ name := fun _ hother heq =>
  List.lt_asymm hlt (heq ▸ List.rel_of_pairwise_cons h hother)

theorem Ascending.nodup (h : Ascending files) : files.Nodup :=
  h.imp fun {file other} hlt (heq : file = other) => List.lt_irrefl _ (heq ▸ hlt)

/-- Files of ascending packages are all there is of their packages. -/
theorem Ascending.ofPackage_eq (h : Ascending files) (hmem : file ∈ files) :
    ofPackage file.package files = [file] := by
  obtain ⟨before, after, rfl⟩ := List.append_of_mem hmem
  obtain ⟨-, hafter, hbefore⟩ := List.pairwise_append.1 h
  have hfront : ofPackage file.package before = [] := by
    refine ofPackage_eq_nil_iff.2 fun hname => ?_
    obtain ⟨other, hother, heq⟩ := List.mem_map.1 hname
    exact List.lt_irrefl _ (heq ▸ hbefore other hother file List.mem_cons_self)
  have hback : ofPackage file.package after = [] := by
    refine ofPackage_eq_nil_iff.2 fun hname => ?_
    obtain ⟨other, hother, heq⟩ := List.mem_map.1 hname
    exact Ascending.package_ne hafter other hother heq
  unfold ofPackage at hfront hback ⊢
  simp [hfront, hback]

/-! ### One file more -/

theorem map_package_insertPackage (file : SchemaFile) (grouped : List SchemaFile) :
    (insertPackage file grouped).map package =
      Text.insertOrdered file.package (grouped.map package) := by
  induction grouped with
  | nil => rfl
  | cons merged grouped ih =>
    rw [insertPackage, List.map_cons, Text.insertOrdered]
    split_ifs
    · rfl
    · rfl
    · rw [List.map_cons, ih]

/-- A file is appended to the one of its package, if there is one, and else is there as it is. -/
theorem mem_insertPackage (h : Ascending grouped) : merged ∈ insertPackage file grouped ↔
    merged ∈ grouped ∧ merged.package ≠ file.package ∨
    (∃ old ∈ grouped, old.package = file.package ∧ merged = old.append file) ∨
    file.package ∉ grouped.map package ∧ merged = file := by
  induction grouped with
  | nil => simp [insertPackage]
  | cons first grouped ih =>
    rw [insertPackage]
    by_cases hsame : file.package = first.package
    · have hne := h.package_ne
      rw [if_pos hsame]
      grind
    rw [if_neg hsame]
    by_cases hbefore : Text.precedes file.package first.package = true
    · have hne := h.package_ne_of_lt (Text.precedes_iff_utf8_lt.1 hbefore)
      rw [if_pos hbefore]
      grind
    · rw [if_neg hbefore, List.mem_cons, ih (List.Pairwise.of_cons h)]
      grind

theorem Groups.insertPackage (h : Groups files grouped) (file : SchemaFile) :
    Groups (files ++ [file]) (insertPackage file grouped) where
  ascending := by
    have hnames := Text.pairwise_insertOrdered file.package (List.pairwise_map.2 h.ascending)
    rw [← map_package_insertPackage, List.pairwise_map] at hnames
    exact hnames
  mem_packages_iff name := by
    rw [map_package_insertPackage, Text.mem_insertOrdered, h.mem_packages_iff]
    simp [or_comm]
  merges merged hmerged := by
    rw [ofPackage_append]
    rcases (mem_insertPackage h.ascending).1 hmerged with
      ⟨hmem, hne⟩ | ⟨old, hold, hpackage, rfl⟩ | ⟨hnew, rfl⟩
    · rw [if_neg hne.symm, List.append_nil]
      exact h.merges merged hmem
    · rw [if_pos (show file.package = (old.append file).package from hpackage.symm)]
      exact (h.merges old hold).append file
    · rw [h.mem_packages_iff, ← ofPackage_eq_nil_iff] at hnew
      rw [hnew, if_pos rfl]
      exact merges_singleton merged

theorem groups_groupByPackage (files : List SchemaFile) : Groups files (groupByPackage files) := by
  induction files using List.reverseRecOn with
  | nil => exact ⟨List.Pairwise.nil, fun _ => Iff.rfl, nofun⟩
  | append_singleton files file ih =>
    rw [groupByPackage, List.foldl_append]
    exact ih.insertPackage file

/-! ### Nothing else counts -/

theorem Groups.mem_of_mem (h : Groups files grouped) (hothers : Groups files others)
    (hmem : merged ∈ grouped) : merged ∈ others := by
  have hpackage := (h.mem_packages_iff _).1 (List.mem_map_of_mem hmem)
  obtain ⟨other, hother, hsame⟩ := List.mem_map.1 ((hothers.mem_packages_iff _).2 hpackage)
  have hmerges := hothers.merges other hother
  rw [hsame] at hmerges
  rwa [(h.merges merged hmem).eq hmerges hsame.symm]

/-- There is one way to group files. -/
theorem Groups.eq (h : Groups files grouped) (hothers : Groups files others) :
    grouped = others := by
  have hperm := (List.perm_ext_iff_of_nodup h.ascending.nodup hothers.ascending.nodup).2
    fun _ => ⟨h.mem_of_mem hothers, hothers.mem_of_mem h⟩
  exact hperm.eq_of_pairwise (fun _ _ _ _ hlt hgt => absurd hgt (List.lt_asymm hlt))
    h.ascending hothers.ascending

theorem Groups.congr (h : Groups files grouped)
    (hsame : ∀ name, ofPackage name others = ofPackage name files) : Groups others grouped where
  ascending := h.ascending
  mem_packages_iff name := by
    rw [h.mem_packages_iff, ← not_iff_not, ← ofPackage_eq_nil_iff, ← ofPackage_eq_nil_iff, hsame]
  merges merged hmerged := hsame merged.package ▸ h.merges merged hmerged

theorem Ascending.groups (h : Ascending files) : Groups files files where
  ascending := h
  mem_packages_iff _ := Iff.rfl
  merges file hfile := by
    rw [h.ofPackage_eq hfile]
    exact merges_singleton file

/-- Grouping leaves one file for each package, and depends on nothing but the files of each one, in
order; what it leaves is grouped. -/
theorem groupByPackage_merges_packages (files : List SchemaFile) :
    Groups files (groupByPackage files) ∧
      (∀ others, (∀ name, ofPackage name others = ofPackage name files) →
        groupByPackage others = groupByPackage files) ∧
      groupByPackage (groupByPackage files) = groupByPackage files := by
  have hgroups := groups_groupByPackage files
  refine ⟨hgroups, fun others hsame => ?_, ?_⟩
  · exact (groups_groupByPackage others).eq (hgroups.congr hsame)
  · exact (groups_groupByPackage _).eq hgroups.ascending.groups

end EnumWire.SchemaFile
