import EnumWire.Proofs.Command.Homes
import EnumWire.Proofs.Command.Load
import Mathlib.Data.List.Nodup

/-! # Where modules are kept

Everything that a run makes is on the way to the output or below it, but for packages that begin
with a separator. The types file of a directory holds the module of the last package that has it, so
where packages have a directory each, every one keeps its module. -/
namespace EnumWire.Command

open EnumWire.Files FileTree ModuleTree

namespace Codegen

variable {options : Options} {pools before after : List Pool} {pool last : Pool}
  {s t u : Surroundings} {tree left : FileTree} {root location : Location}

/-- The types file of a package holds the module of a pool. -/
def HoldsModule (options : Options) (left : FileTree) (package : Text) (pool : Pool) : Prop :=
  ∃ code, Module.text options.params pool = .ok code ∧
    left.read (typesFile options.output package) = .ok code

/-- What is changed is the way to the output or below it. -/
def StaysInside (options : Options) (root : Location) (tree left : FileTree) : Prop :=
  ∀ location, left.find? location ≠ tree.find? location →
    left.OnWay options.output location ∨ root <+: location

/-- Where a run for some pools has changed something, and what it has left in the types files. -/
structure KeepsModules (options : Options) (pools : List Pool) (root : Location)
    (tree left : FileTree) : Prop where
  leadsTo : left.LeadsTo options.output root
  changes : ∀ location, left.find? location ≠ tree.find? location →
    left.OnWay options.output location ∨ root <+: location ∨
      ∃ pool ∈ pools, (packagePath pool.package).isAbsolute = true ∧
        location.dropLast <+: home root pool.package
  /-- The last package with the same directory has its module there. -/
  holds : ∀ pool ∈ pools, ∃ before last after, pools = before ++ last :: after ∧
    home root last.package = home root pool.package ∧
    (∀ other ∈ after, home root other.package ≠ home root pool.package) ∧
    HoldsModule options left pool.package last
  /-- Packages of which no part is empty or holds a slash have a directory each, and inside. -/
  wellNamed : WellNamed (pools.map Pool.package) → StaysInside options root tree left ∧
    ∀ pool ∈ pools, HoldsModule options left pool.package pool

/-! ### Which steps there are -/

theorem create_not_mem_note {verbose : Bool} {text : Text} {path : Path} :
    Step.create path ∉ note verbose text := by
  cases verbose <;> simp [note]

theorem mem_poolsPlan_create {path : Path} : Step.create path ∈ (poolsPlan options pools).steps ↔
    path = options.output ∨
    (∃ pool ∈ pools, path = typesDirectory options.output pool.package) ∨
    ∃ package ∈ members (pools.map Pool.package),
      path = moduleDirectory options.output package := by
  rw [poolsPlan_eq]
  simp [packageSteps, typesSteps, closingSteps, create_not_mem_note, mem_treeSteps]

theorem writesByName_poolsPlan (options : Options) (pools : List Pool) :
    ∀ step ∈ (poolsPlan options pools).steps, step.WritesByName := by
  rintro step hmem role path t rfl
  obtain ⟨pool, -, -, rfl, -⟩ | htree := mem_poolsPlan_write.1 hmem
  · exact ⟨_, _, isPlain_typesName.endsIn_join _⟩
  · exact writesByName_of_mem_treeSteps htree role path t rfl

/-- The steps after those for the module of one package. -/
def stepsAfter (options : Options) (after : List Pool) (packages : List Text) : List Step :=
  after.flatMap (packageSteps options) ++ closingSteps options packages

theorem exists_steps_poolsPlan (options : Options) (before after : List Pool) (last : Pool) :
    ∃ first, (poolsPlan options (before ++ last :: after)).steps = first ++
      .write .types (typesFile options.output last.package)
        (Module.sourceText options.params last) ::
      stepsAfter options after ((before ++ last :: after).map Pool.package) := by
  refine ⟨.create options.output :: (before.flatMap (packageSteps options) ++
    (note options.verbose (packageNote options.output last.package) ++
      [.create (typesDirectory options.output last.package)])), ?_⟩
  rw [poolsPlan_eq, List.flatMap_append, List.flatMap_cons]
  simp [packageSteps, typesSteps, typesFile, stepsAfter]

theorem path_of_mem_stepsAfter {packages : List Text} {role : FileRole} {path : Path} {t : Text}
    (h : Step.write role path t ∈ stepsAfter options after packages) :
    (∃ other ∈ after, path = typesFile options.output other.package) ∨
      ∃ package, path = moduleFile options.output package := by
  obtain hafter | hclosing := List.mem_append.1 h
  · obtain ⟨other, hother, hstep⟩ := List.mem_flatMap.1 hafter
    exact .inl ⟨other, hother, (mem_packageSteps_write.1 hstep).2.1⟩
  · simp only [closingSteps, List.mem_append, write_not_mem_note, or_false, List.mem_singleton,
      reduceCtorEq] at hclosing
    obtain ⟨parts, -, -, hpath, -⟩ := mem_treeSteps_write.1 hclosing
    exact .inr ⟨packageOf parts, hpath⟩

/-! ### What a run of the steps leaves -/

theorem exists_leadsTo_of_performAll (hwell : s.tree.WellFormed)
    (hrun : Step.performAll (poolsPlan options pools).steps s = (.ok (), u)) :
    ∃ root, u.tree.LeadsTo options.output root := by
  have hnames := writesByName_poolsPlan options pools
  rw [poolsPlan_eq] at hrun hnames
  rw [List.forall_mem_cons] at hnames
  obtain ⟨t, hperform, hrest⟩ := Step.performAll_cons_eq_ok.1 hrun
  obtain ⟨root, hroot⟩ := Step.exists_leadsTo_of_perform hwell hperform
  have hwell' := (Step.leaves_of_perform hwell hnames.1 hperform).wellFormed
  exact ⟨root, (Step.leaves_of_performAll hwell' hnames.2 hrest).grows.leadsTo hroot⟩

/-- Each changed location is one that the steps for some package touch. -/
theorem exists_touches_of_ne (hwell : s.tree.WellFormed)
    (hrun : Step.performAll (poolsPlan options pools).steps s = (.ok (), u))
    (hroot : u.tree.LeadsTo options.output root)
    (hne : u.tree.find? location ≠ s.tree.find? location) :
    u.tree.OnWay options.output location ∨
      ∃ package ∈ pools.map Pool.package, Touches u.tree options.output root package location := by
  have hnames := writesByName_poolsPlan options pools
  have hleaves := Step.leaves_of_performAll hwell hnames hrun
  obtain hsame | ⟨hnone, hdirectory⟩ | ⟨_, _, _, hmem, hlocate, -⟩ := hleaves.find?_eq location
  · exact absurd hsame hne
  · obtain ⟨path, hmem, hway⟩ :=
      Step.exists_create_of_performAll hwell hnames hrun hnone hdirectory
    obtain rfl | ⟨pool, hpool, rfl⟩ | ⟨member, hmember, rfl⟩ := mem_poolsPlan_create.1 hmem
    · exact .inl hway
    · exact .inr ⟨_, List.mem_map_of_mem hpool, touches_of_onWay_typesDirectory hroot hway⟩
    · exact .inr (exists_touches_of_mem_members hmember
        (touches_of_onWay_moduleDirectory hroot hway))
  · obtain ⟨pool, hpool, -, rfl, -⟩ | htree := mem_poolsPlan_write.1 hmem
    · rw [eq_home_of_locate_typesFile hroot hlocate]
      exact .inr ⟨_, List.mem_map_of_mem hpool, touches_home_append _ _ _ _ _⟩
    · obtain ⟨parts, habove, -, rfl, -⟩ := mem_treeSteps_write.1 htree
      rw [eq_home_of_locate_moduleFile hroot hlocate]
      exact .inr (exists_touches_of_mem_members (mem_members.2 ⟨parts, habove, rfl⟩)
        (touches_home_append _ _ _ _ _))

/-- The module of a package stays if no later package has the same directory. -/
theorem read_typesFile_of_last (hwell : s.tree.WellFormed)
    (hrun : Step.performAll (poolsPlan options (before ++ last :: after)).steps s = (.ok (), u))
    (hroot : u.tree.LeadsTo options.output root)
    (hlast : ∀ other ∈ after, home root other.package ≠ home root last.package) :
    u.tree.read (typesFile options.output last.package) =
      .ok (Module.sourceText options.params last) := by
  have hnames := writesByName_poolsPlan options (before ++ last :: after)
  obtain ⟨first, hsteps⟩ := exists_steps_poolsPlan options before after last
  rw [hsteps] at hrun hnames
  rw [List.forall_mem_append, List.forall_mem_cons] at hnames
  obtain ⟨t, hfirst, hrest⟩ := Step.performAll_append_eq_ok.1 hrun
  have hleaves := Step.leaves_of_performAll hwell hnames.1 hfirst
  refine Step.read_of_performAll_write hleaves.wellFormed (isPlain_typesName.endsIn_join _)
    hnames.2.2 hrest fun role path text location hmem hlocate hother => ?_
  have hlocation := eq_home_of_locate_typesFile hroot hlocate
  obtain ⟨other, hafter, rfl⟩ | ⟨package, rfl⟩ := path_of_mem_stepsAfter hmem
  · rw [eq_home_of_locate_typesFile hroot hother] at hlocation
    exact hlast other hafter (List.append_cancel_right hlocation)
  · rw [eq_home_of_locate_moduleFile hroot hother] at hlocation
    have hname := List.append_inj_right' hlocation rfl
    exact absurd hname (by decide)

/-- Types files with the same directory are one file. -/
theorem read_typesFile_eq (hwell : s.tree.WellFormed)
    (hrun : Step.performAll (poolsPlan options pools).steps s = (.ok (), u))
    (hroot : u.tree.LeadsTo options.output root) (hpool : pool ∈ pools) (hlast : last ∈ pools)
    (hsame : home root last.package = home root pool.package) :
    u.tree.read (typesFile options.output pool.package) =
      u.tree.read (typesFile options.output last.package) := by
  have hleaves := Step.leaves_of_performAll hwell (writesByName_poolsPlan options pools) hrun
  obtain ⟨location, hlocate, -⟩ :=
    hleaves.placed _ _ _ (mem_poolsPlan_write.2 (.inl ⟨pool, hpool, rfl, rfl, rfl⟩))
  obtain ⟨place, hplace, -⟩ :=
    hleaves.placed _ _ _ (mem_poolsPlan_write.2 (.inl ⟨last, hlast, rfl, rfl, rfl⟩))
  have hlocation : location = place := by
    rw [eq_home_of_locate_typesFile hroot hlocate, eq_home_of_locate_typesFile hroot hplace, hsame]
  rw [FileTree.read, FileTree.read, hlocate, hplace, hlocation]

/-- The last element with a property, and what is around it. -/
theorem exists_last_of_exists {α : Type} {p : α → Prop} {l : List α} (h : ∃ a ∈ l, p a) :
    ∃ before last after, l = before ++ last :: after ∧ p last ∧ ∀ other ∈ after, ¬p other := by
  induction l with
  | nil => simp at h
  | cons a l ih =>
    by_cases hrest : ∃ b ∈ l, p b
    · obtain ⟨before, last, after, rfl, hlast, hafter⟩ := ih hrest
      exact ⟨a :: before, last, after, rfl, hlast, hafter⟩
    · obtain ⟨b, hb, hpb⟩ := h
      obtain rfl | hb := List.mem_cons.1 hb
      · exact ⟨[], b, l, rfl, hpb, fun other hother hp => hrest ⟨other, hother, hp⟩⟩
      · exact absurd ⟨b, hb, hpb⟩ hrest

theorem exists_last_holdsModule (hwell : s.tree.WellFormed)
    (hrun : Step.performAll (poolsPlan options pools).steps s = (.ok (), u))
    (hroot : u.tree.LeadsTo options.output root) (hpool : pool ∈ pools) :
    ∃ before last after, pools = before ++ last :: after ∧
      home root last.package = home root pool.package ∧
      (∀ other ∈ after, home root other.package ≠ home root pool.package) ∧
      HoldsModule options u.tree pool.package last := by
  have hsame : ∃ other ∈ pools, home root other.package = home root pool.package :=
    ⟨pool, hpool, rfl⟩
  obtain ⟨before, last, after, rfl, hhome, hlast⟩ := exists_last_of_exists hsame
  refine ⟨before, last, after, rfl, hhome, hlast, _, Module.text_eq options.params last, ?_⟩
  rw [read_typesFile_eq hwell hrun hroot hpool (by simp) hhome]
  exact read_typesFile_of_last hwell hrun hroot fun other hother => hhome ▸ hlast other hother

theorem keepsModules_of_performAll (hwell : s.tree.WellFormed)
    (hrun : Step.performAll (poolsPlan options pools).steps s = (.ok (), u))
    (hdistinct : (pools.map Pool.package).Nodup) :
    ∃ root, KeepsModules options pools root s.tree u.tree := by
  obtain ⟨root, hroot⟩ := exists_leadsTo_of_performAll hwell hrun
  have hchanges : ∀ location, u.tree.find? location ≠ s.tree.find? location →
      u.tree.OnWay options.output location ∨ root <+: location ∨
        ∃ pool ∈ pools, (packagePath pool.package).isAbsolute = true ∧
          location.dropLast <+: home root pool.package := by
    intro location hne
    obtain hway | ⟨package, hpackage, htouches⟩ := exists_touches_of_ne hwell hrun hroot hne
    · exact .inl hway
    · obtain ⟨pool, hpool, rfl⟩ := List.mem_map.1 hpackage
      exact htouches.imp_right (Or.imp_right fun houtside => ⟨pool, hpool, houtside⟩)
  refine ⟨root, hroot, hchanges, fun _ => exists_last_holdsModule hwell hrun hroot,
    fun hnamed => ⟨fun location hne => ?_, ?_⟩⟩
  · refine (hchanges location hne).imp_right fun hinside => hinside.resolve_right ?_
    rintro ⟨pool, hpool, houtside, -⟩
    have hrelative := isAbsolute_of_wellNamed hnamed (List.mem_map_of_mem hpool)
    cases hrelative.symm.trans houtside
  · intro pool hpool
    obtain ⟨before, last, after, rfl, hhome, -, hlast⟩ :=
      exists_last_holdsModule hwell hrun hroot hpool
    have hmem : last ∈ before ++ last :: after := by simp
    have hpackage := home_inj hnamed (List.mem_map_of_mem hmem) (List.mem_map_of_mem hpool) hhome
    exact List.inj_on_of_nodup_map hdistinct hmem hpool hpackage ▸ hlast

theorem performAll_note {verbose : Bool} {text : Text}
    (hrun : Step.performAll (note verbose text) s = (.ok (), t)) : t.tree = s.tree := by
  cases verbose with
  | false => exact congrArg (Surroundings.tree ∘ Prod.snd) hrun.symm
  | true => exact congrArg (Surroundings.tree ∘ Prod.snd) hrun.symm

end Codegen

theorem Plan.performAll_of_run {plan : Plan} {s t : Surroundings} (h : plan.run s = (.ok (), t)) :
    Step.performAll plan.steps s = (.ok (), t) ∧ plan.failure = none := by
  unfold run at h
  split at h
  · cases (Prod.mk.inj h).1
  · rename_i outcome hother
    cases hfailure : plan.failure with
    | none => exact ⟨h, rfl⟩
    | some failure => exact absurd hfailure (hother _ _ h)

/-- A run that succeeds has changed nothing but the way to the output and what is below it, and what
packages that begin with a separator reach; in the directory of each package is the module of the
last package that has this directory. -/
theorem run_keeps_modules (parse : Text → Except Yaml.Flaw SchemaFile) (options : Codegen.Options)
    (s t : Surroundings) (hwell : s.tree.WellFormed)
    (hrun : (Command.codegen options).run parse s = (.ok (), t)) :
    ∃ pools root, Load.pools parse (Load.contents s.tree options.files) = .ok pools ∧
      Codegen.KeepsModules options pools root s.tree t.tree := by
  obtain ⟨hsteps, hfailure⟩ := Plan.performAll_of_run hrun
  simp only [plan, files, Codegen.plan] at hsteps hfailure
  cases hpools : Load.pools parse (Load.contents s.tree options.files) with
  | error failure =>
    rw [hpools] at hfailure
    cases hfailure
  | ok pools =>
    rw [hpools] at hsteps
    obtain ⟨noted, hnote, hplan⟩ := Step.performAll_append_eq_ok.1 hsteps
    have htree := Codegen.performAll_note hnote
    have hascending := (Load.pools_eq_ok_iff.1 hpools).ascending
    have hdistinct : (pools.map Pool.package).Nodup := by
      rw [List.Nodup, List.pairwise_map]
      refine hascending.imp fun {pool other} hlt heq => ?_
      rw [heq] at hlt
      exact List.lt_irrefl _ hlt
    obtain ⟨root, hkeeps⟩ :=
      Codegen.keepsModules_of_performAll (htree ▸ hwell) hplan hdistinct
    exact ⟨pools, root, rfl, htree ▸ hkeeps⟩

/-- A directory with two schema files, each without definitions. -/
def schemaTree (first second : Text) : FileTree :=
  (({} : FileTree).put ["first.yaml"] (.text ("schema:\n  package: " ++ first ++ "\n"))).put
    ["second.yaml"] (.text ("schema:\n  package: " ++ second ++ "\n"))

def schemaOptions : Codegen.Options := { files := ["first.yaml", "second.yaml"], output := "out" }

/-- What a run comes to on two schema files. -/
def schemaRun (first second : Text) : Outcome :=
  (Command.codegen schemaOptions).run SchemaFile.ofYaml { tree := schemaTree first second }

theorem wellFormed_schemaTree (first second : Text) : (schemaTree first second).WellFormed := by
  refine (wellFormed_empty.put ?_ rfl ?_).put ?_ rfl ?_
  · simp
  · exact nofun
  · simp
  · exact nofun

/-- Packages with a directory each. -/
theorem run_keeps_modules_shop :
    (schemaTree "shop.apparel" "shop").WellFormed ∧ (schemaRun "shop.apparel" "shop").1 = .ok () ∧
      ∃ pools root,
        Load.pools SchemaFile.ofYaml
          (Load.contents (schemaTree "shop.apparel" "shop") schemaOptions.files) = .ok pools ∧
        Codegen.KeepsModules schemaOptions pools root (schemaTree "shop.apparel" "shop")
          (schemaRun "shop.apparel" "shop").2.tree := by
  have hwell := wellFormed_schemaTree "shop.apparel" "shop"
  have hrun : schemaRun "shop.apparel" "shop" = (.ok (), (schemaRun "shop.apparel" "shop").2) := by
    decide +kernel
  refine ⟨hwell, by rw [hrun], ?_⟩
  exact run_keeps_modules SchemaFile.ofYaml schemaOptions
    { tree := schemaTree "shop.apparel" "shop" } (schemaRun "shop.apparel" "shop").2 hwell hrun

/-- A slash makes two packages share a directory, and a separator at the start makes one leave the
output. -/
theorem modules_not_kept :
    ((schemaRun "a.b" "a/b").1 = .ok () ∧
        ¬Codegen.HoldsModule schemaOptions (schemaRun "a.b" "a/b").2.tree "a.b"
          { package := "a.b" }) ∧
      (schemaRun "a" ".x").1 = .ok () ∧ (schemaRun "a" ".x").2.tree.LeadsTo "out" ["out"] ∧
        ¬Codegen.StaysInside schemaOptions ["out"] (schemaTree "a" ".x")
          (schemaRun "a" ".x").2.tree := by
  -- Each of the two runs is gone through once.
  have hshared : (schemaRun "a.b" "a/b").1 = .ok () ∧
      (Module.text schemaOptions.params { package := "a.b" }).toOption ≠
        ((schemaRun "a.b" "a/b").2.tree.read
          (Codegen.typesFile schemaOptions.output "a.b")).toOption := by decide +kernel
  have houtside : (schemaRun "a" ".x").1 = .ok () ∧
      (schemaRun "a" ".x").2.tree.startOf schemaOptions.output = [] ∧
      (Path.names "out").foldlM (schemaRun "a" ".x").2.tree.enter
        ((schemaRun "a" ".x").2.tree.startOf "out") = .ok ["out".toList] ∧
      (schemaRun "a" ".x").2.tree.find? ["x".toList] ≠
        (schemaTree "a" ".x").find? ["x".toList] := by decide +kernel
  obtain ⟨hok, hstart, hroot, hmade⟩ := houtside
  refine ⟨⟨hshared.1, ?_⟩, hok, ?_, fun hinside => ?_⟩
  · rintro ⟨code, hcode, hread⟩
    have hother := hshared.2
    rw [hcode, hread] at hother
    exact hother rfl
  · unfold LeadsTo
    exact hroot
  · obtain hway | hbelow := hinside _ hmade
    · have hplain : ∀ name ∈ Path.names schemaOptions.output, Path.IsPlain name := by
        intro name hname
        obtain rfl := List.mem_singleton.1 hname
        exact ⟨by decide, by decide, by decide, by decide⟩
      obtain ⟨parts, hlead, hparts⟩ := Passes.exists_eq_append hway hplain
      rw [hstart, List.nil_append] at hparts
      rw [← hparts] at hlead
      exact absurd hlead (by decide +kernel)
    · exact absurd hbelow (by decide)

end EnumWire.Command
