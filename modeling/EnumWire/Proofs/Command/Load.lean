import EnumWire.Command.Arguments
import EnumWire.Proofs.Descriptor.Resolution
import EnumWire.Proofs.Schema.Package

/-! # Everything loads, or nothing is done

Files load in the order in which they are given, and then packages resolve in the order of their
bytes. The first of them that does not is the failure, whatever comes of the others, and the command
ends with it before it has reported or written anything. -/
namespace EnumWire.Command

open EnumWire.Files Traversal

namespace Load

variable {parse : Text → Except Yaml.Flaw SchemaFile} {tree : FileTree} {path : Path}
  {paths : List Path} {file : SchemaFile} {files : List SchemaFile} {pool : Pool}
  {pools : List Pool} {failure : Failure}

/-- A path leads to the text of a schema. -/
def Holds (parse : Text → Except Yaml.Flaw SchemaFile) (tree : FileTree) (path : Path)
    (file : SchemaFile) : Prop :=
  ∃ text, tree.read path = .ok text ∧ parse text = .ok file

/-- Why there is no schema at a path. -/
inductive Refuses (parse : Text → Except Yaml.Flaw SchemaFile) (tree : FileTree) (path : Path) :
    Failure → Prop
  | unreadable {fault : Fault} (hread : tree.read path = .error fault) :
    Refuses parse tree path (.read path fault)
  | unparsed {text : Text} {flaw : Yaml.Flaw} (hread : tree.read path = .ok text)
    (hparse : parse text = .error flaw) : Refuses parse tree path (.ofFlaw path flaw)

/-- Every path leads to a schema and every package resolves, to one pool each, in the order of the
bytes of the packages. -/
structure Loads (parse : Text → Except Yaml.Flaw SchemaFile) (tree : FileTree) (paths : List Path)
    (pools : List Pool) : Prop where
  ne_nil : paths ≠ []
  resolved : ∃ files, List.Forall₂ (Holds parse tree) paths files ∧
    List.Forall₂ (fun file pool => Pool.ofSchema file = .ok pool) (SchemaFile.groupByPackage files)
      pools ∧
    ∀ name, name ∈ pools.map Pool.package ↔ name ∈ files.map SchemaFile.package
  ascending : pools.Pairwise fun pool other => Text.utf8 pool.package < Text.utf8 other.package

/-- Why loading fails: there are no paths, or the first path that leads to no schema, or else the
first package that does not resolve. -/
inductive Fails (parse : Text → Except Yaml.Flaw SchemaFile) (tree : FileTree) :
    List Path → Failure → Prop
  | noFiles : Fails parse tree [] .noFiles
  | path {before after : List Path} {path : Path} {failure : Failure}
    (hbefore : ∀ other ∈ before, ∃ file, Holds parse tree other file)
    (hpath : Refuses parse tree path failure) : Fails parse tree (before ++ path :: after) failure
  | package {paths : List Path} {files : List SchemaFile} {file : SchemaFile} {error : ResolveError}
    (hne : paths ≠ []) (hfiles : List.Forall₂ (Holds parse tree) paths files)
    (hmem : file ∈ SchemaFile.groupByPackage files) (herror : Pool.ofSchema file = .error error)
    (hbefore : ∀ other ∈ SchemaFile.groupByPackage files,
      Text.utf8 other.package < Text.utf8 file.package → ∃ pool, Pool.ofSchema other = .ok pool) :
    Fails parse tree paths (.resolve file.package error)

/-! ### One file, one package -/

theorem file_eq_ok_iff : Load.file parse ⟨path, tree.read path⟩ = .ok file ↔
    Holds parse tree path file := by
  unfold Load.file Holds
  cases tree.read path with
  | error fault => simp
  | ok text => cases hparse : parse text <;> simp [Except.mapError, hparse]

theorem file_eq_error_iff : Load.file parse ⟨path, tree.read path⟩ = .error failure ↔
    Refuses parse tree path failure := by
  constructor
  · intro h
    cases hread : tree.read path with
    | error fault =>
      rw [Load.file, hread] at h
      exact Except.error.inj h ▸ .unreadable hread
    | ok text =>
      cases hparse : parse text with
      | error flaw =>
        simp only [Load.file, hread, hparse, Except.mapError] at h
        exact Except.error.inj h ▸ .unparsed hread hparse
      | ok file => simp [Load.file, hread, hparse, Except.mapError] at h
  · rintro (hread | ⟨hread, hparse⟩)
    · simp [Load.file, hread]
    · simp [Load.file, hread, hparse, Except.mapError]

theorem resolve_eq_ok_iff : resolve file = .ok pool ↔ Pool.ofSchema file = .ok pool := by
  unfold resolve
  cases Pool.ofSchema file <;> simp [Except.mapError]

theorem resolve_eq_error_iff : resolve file = .error failure ↔
    ∃ error, Pool.ofSchema file = .error error ∧ failure = .resolve file.package error := by
  unfold resolve
  cases Pool.ofSchema file <;> simp [Except.mapError, eq_comm]

/-! ### All files, all packages -/

theorem mapM_file_eq_ok_iff : (contents tree paths).mapM (Load.file parse) = .ok files ↔
    List.Forall₂ (Holds parse tree) paths files := by
  rw [mapM_eq_ok_iff, contents, List.forall₂_map_left_iff]
  simp only [file_eq_ok_iff]

theorem mapM_file_eq_error_iff : (contents tree paths).mapM (Load.file parse) = .error failure ↔
    ∃ before path after, paths = before ++ path :: after ∧
      (∀ other ∈ before, ∃ file, Holds parse tree other file) ∧
        Refuses parse tree path failure := by
  rw [contents, List.mapM_map, mapM_eq_error_iff_exists]
  simp only [Function.comp, file_eq_ok_iff, file_eq_error_iff]

theorem mapM_resolve_eq_ok_iff : files.mapM resolve = .ok pools ↔
    List.Forall₂ (fun file pool => Pool.ofSchema file = .ok pool) files pools := by
  rw [mapM_eq_ok_iff]
  simp only [resolve_eq_ok_iff]

/-- Where packages ascend, the first failure is that of the least package that does not resolve. -/
theorem mapM_resolve_eq_error_iff (h : SchemaFile.Ascending files) :
    files.mapM resolve = .error failure ↔ ∃ file ∈ files, ∃ error,
      Pool.ofSchema file = .error error ∧ failure = .resolve file.package error ∧
      ∀ other ∈ files, Text.utf8 other.package < Text.utf8 file.package →
        ∃ pool, Pool.ofSchema other = .ok pool := by
  rw [mapM_eq_error_iff_exists]
  constructor
  · rintro ⟨before, file, after, rfl, hbefore, hfile⟩
    obtain ⟨error, herror, rfl⟩ := resolve_eq_error_iff.1 hfile
    refine ⟨file, by simp, error, herror, rfl, fun other hother hlt => ?_⟩
    rcases List.mem_append.1 hother with hother | hother
    · obtain ⟨pool, hpool⟩ := hbefore other hother
      exact ⟨pool, resolve_eq_ok_iff.1 hpool⟩
    rcases List.mem_cons.1 hother with rfl | hother
    · exact absurd hlt (List.lt_irrefl _)
    · have hgt := List.rel_of_pairwise_cons (List.pairwise_append.1 h).2.1 hother
      exact absurd hlt (List.lt_asymm hgt)
  · rintro ⟨file, hmem, error, herror, rfl, hbefore⟩
    obtain ⟨before, after, rfl⟩ := List.append_of_mem hmem
    refine ⟨before, file, after, rfl, fun other hother => ?_,
      resolve_eq_error_iff.2 ⟨error, herror, rfl⟩⟩
    have hlt := (List.pairwise_append.1 h).2.2 other hother file List.mem_cons_self
    obtain ⟨pool, hpool⟩ := hbefore other (List.mem_append_left _ hother) hlt
    exact ⟨pool, resolve_eq_ok_iff.2 hpool⟩

theorem map_package_of_resolved
    (h : List.Forall₂ (fun file pool => Pool.ofSchema file = .ok pool) files pools) :
    pools.map Pool.package = files.map SchemaFile.package := by
  induction h with
  | nil => rfl
  | cons hpool _ ih =>
    rw [List.map_cons, List.map_cons, ih, (Pool.resolvesTo_of_ofSchema hpool).package]

/-! ### Files, then packages -/

theorem pools_of_ne_nil (h : paths ≠ []) : Load.pools parse (contents tree paths) =
    (contents tree paths).mapM (Load.file parse) >>= fun files =>
      (SchemaFile.groupByPackage files).mapM resolve := by
  rw [Load.pools, if_neg (by simpa [contents] using h)]

theorem pools_eq_ok_iff : Load.pools parse (contents tree paths) = .ok pools ↔
    Loads parse tree paths pools := by
  constructor
  · intro h
    have hne : paths ≠ [] := by
      rintro rfl
      cases h
    rw [pools_of_ne_nil hne] at h
    obtain ⟨files, hfiles, hpools⟩ := bind_eq_ok.1 h
    rw [mapM_file_eq_ok_iff] at hfiles
    rw [mapM_resolve_eq_ok_iff] at hpools
    have hgroups := SchemaFile.groups_groupByPackage files
    have hnames := map_package_of_resolved hpools
    refine ⟨hne, ⟨files, hfiles, hpools, hnames ▸ hgroups.mem_packages_iff⟩, ?_⟩
    have hascending : (pools.map Pool.package).Pairwise fun name other =>
        Text.utf8 name < Text.utf8 other := by
      rw [hnames, List.pairwise_map]
      exact hgroups.ascending
    rwa [List.pairwise_map] at hascending
  · rintro ⟨hne, ⟨files, hfiles, hpools, -⟩, -⟩
    rw [pools_of_ne_nil hne]
    exact bind_eq_ok.2 ⟨files, mapM_file_eq_ok_iff.2 hfiles, mapM_resolve_eq_ok_iff.2 hpools⟩

theorem pools_eq_error_iff : Load.pools parse (contents tree paths) = .error failure ↔
    Fails parse tree paths failure := by
  constructor
  · intro h
    by_cases hne : paths = []
    · subst hne
      exact Except.error.inj h ▸ .noFiles
    rw [pools_of_ne_nil hne] at h
    cases hfiles : (contents tree paths).mapM (Load.file parse) with
    | error other =>
      rw [hfiles] at h
      obtain rfl := Except.error.inj h
      obtain ⟨before, path, after, rfl, hbefore, hpath⟩ := mapM_file_eq_error_iff.1 hfiles
      exact .path hbefore hpath
    | ok files =>
      rw [hfiles] at h
      have hascending := (SchemaFile.groups_groupByPackage files).ascending
      obtain ⟨file, hmem, error, herror, rfl, hbefore⟩ := (mapM_resolve_eq_error_iff hascending).1 h
      exact .package hne (mapM_file_eq_ok_iff.1 hfiles) hmem herror hbefore
  · intro h
    cases h with
    | noFiles => rfl
    | path hbefore hpath =>
      rw [pools_of_ne_nil (by simp), mapM_file_eq_error_iff.2 ⟨_, _, _, rfl, hbefore, hpath⟩]
      rfl
    | @package _ files _ _ hne hfiles hmem herror hbefore =>
      rw [pools_of_ne_nil hne, mapM_file_eq_ok_iff.2 hfiles]
      have hascending := (SchemaFile.groups_groupByPackage files).ascending
      exact (mapM_resolve_eq_error_iff hascending).2 ⟨_, hmem, _, herror, rfl, hbefore⟩

end Load

/-- What a command prints before its files load. -/
def opening : Command → Text
  | .codegen options => if options.verbose then Codegen.heading options else []
  | .analyze _ => []

theorem run_of_pools_eq_error {parse : Text → Except Yaml.Flaw SchemaFile} {command : Command}
    {s : Surroundings} {failure : Failure}
    (h : Load.pools parse (Load.contents s.tree command.files) = .error failure) :
    command.run parse s = (.error failure, { s with printed := s.printed ++ command.opening }) := by
  cases command with
  | codegen options =>
    rw [run, plan, Codegen.plan, h]
    unfold opening
    cases hverbose : options.verbose with
    | false => simp [Codegen.note, Plan.andThen, Plan.fail, Plan.run, Step.performAll, hverbose]
    | true =>
      simp [Codegen.note, Plan.andThen, Plan.fail, Plan.run, Step.performAll, Step.perform,
        hverbose]
  | analyze options =>
    rw [run, plan, Analyze.plan, h]
    simp [opening, Plan.fail, Plan.run, Step.performAll]

/-- Loading succeeds with one pool for each package, or fails as the first file or else as the first
package that stops it; then a command leaves all files and directories as they are, and has printed
nothing that depends on what it has read. -/
theorem loads_all_or_nothing (parse : Text → Except Yaml.Flaw SchemaFile) (command : Command)
    (s : Surroundings) :
    (∀ pools, Load.pools parse (Load.contents s.tree command.files) = .ok pools ↔
      Load.Loads parse s.tree command.files pools) ∧
    (∀ failure, Load.pools parse (Load.contents s.tree command.files) = .error failure ↔
      Load.Fails parse s.tree command.files failure) ∧
    ∀ failure, Load.Fails parse s.tree command.files failure →
      command.run parse s =
        (.error failure, { s with printed := s.printed ++ command.opening }) :=
  ⟨fun _ => Load.pools_eq_ok_iff, fun _ => Load.pools_eq_error_iff,
    fun _ h => run_of_pools_eq_error (Load.pools_eq_error_iff.2 h)⟩

end EnumWire.Command
