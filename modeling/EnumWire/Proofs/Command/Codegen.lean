import EnumWire.Command.Codegen
import EnumWire.Proofs.Generated.Module

/-! # The steps of generating code

Every module has a text, so the plan for some pools is steps alone: the directory for the output,
the module of each package, and the files of the tree. -/
namespace EnumWire.Command.Codegen

open EnumWire.Files

variable {options : Options} {pools : List Pool} {role : FileRole} {path : Path} {t : Text}

/-- The module of a package. -/
def typesFile (output : Path) (package : Text) : Path :=
  Path.join (typesDirectory output package) "types.rs"

def packageSteps (options : Options) (pool : Pool) : List Step :=
  note options.verbose (packageNote options.output pool.package) ++
    typesSteps options.output pool.package (Module.sourceText options.params pool)

theorem packagePlan_eq (options : Options) (pool : Pool) :
    packagePlan options pool = { steps := packageSteps options pool } := by
  unfold packagePlan packageSteps
  rw [Module.text_eq]

theorem foldr_packagePlan (options : Options) (pools : List Pool) (last : List Step) :
    (pools.map (packagePlan options)).foldr Plan.andThen { steps := last } =
      { steps := pools.flatMap (packageSteps options) ++ last } := by
  induction pools with
  | nil => rfl
  | cons pool pools ih =>
    rw [List.map_cons, List.foldr_cons, ih, packagePlan_eq, Plan.andThen, List.flatMap_cons,
      List.append_assoc]

theorem poolsPlan_eq (options : Options) (pools : List Pool) : poolsPlan options pools =
    { steps := .create options.output :: (pools.flatMap (packageSteps options) ++
        closingSteps options (pools.map Pool.package)) } := by
  simp only [poolsPlan, foldr_packagePlan]

/-! ### What is written -/

theorem write_not_mem_note {verbose : Bool} {text : Text} :
    Step.write role path t ∉ note verbose text := by
  cases verbose <;> simp [note]

theorem mem_packageSteps_write {pool : Pool} :
    Step.write role path t ∈ packageSteps options pool ↔ role = .types ∧
      path = typesFile options.output pool.package ∧ t = Module.sourceText options.params pool := by
  simp [packageSteps, typesSteps, typesFile, write_not_mem_note]

/-- The files that are written are the modules of the packages and those of the tree. -/
theorem mem_poolsPlan_write : Step.write role path t ∈ (poolsPlan options pools).steps ↔
    (∃ pool ∈ pools, role = .types ∧ path = typesFile options.output pool.package ∧
      t = Module.sourceText options.params pool) ∨
    Step.write role path t ∈ treeSteps options.output (pools.map Pool.package) := by
  rw [poolsPlan_eq]
  simp only [List.mem_cons, List.mem_append, List.mem_flatMap, closingSteps, write_not_mem_note,
    mem_packageSteps_write, List.not_mem_nil, reduceCtorEq, or_false, false_or]

end EnumWire.Command.Codegen
