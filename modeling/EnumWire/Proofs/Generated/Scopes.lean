import EnumWire.Generated.Scopes
import EnumWire.Proofs.Generated.ConstantValues
import Mathlib.Data.List.Perm.Basic

/-! # What a scope declares

The enumerations of a scope declare a constant for each of their values. Where no two of these have
one name, the scope can be evaluated, and every constant has the number of its value. -/
namespace EnumWire

open Constants

namespace Scope

variable {params : Params} {scope : Scope} {enums : List EnumType} {known : List (Text × Int32)}
  {value : EnumValue}

/-- The values in the order in which the scope declares their constants. -/
def declaredValues (scope : Scope) : List EnumValue :=
  scope.enums.flatMap Constants.declaredValues

theorem declaredValues_perm (scope : Scope) : scope.declaredValues.Perm scope.values :=
  List.Perm.flatMap_left _ fun enum _ => Partition.ofEnum_perm enum

theorem map_name_declarations (params : Params) (scope : Scope) :
    (scope.declarations params).map Declaration.name =
      scope.declaredValues.map (Names.constant params) := by
  rw [declarations, declaredValues, List.map_flatMap, List.map_flatMap]
  exact List.flatMap_congr fun enum _ => Constants.map_name_declarations params enum

theorem map_name_declarations_perm (params : Params) (scope : Scope) :
    ((scope.declarations params).map Declaration.name).Perm
      (scope.values.map (Names.constant params)) := by
  rw [map_name_declarations]
  exact scope.declaredValues_perm.map _

theorem exists_declaration (params : Params) (hmem : value ∈ scope.values) :
    ∃ declaration ∈ scope.declarations params,
      declaration.name = Names.constant params value :=
  List.mem_map.1 ((map_name_declarations_perm params scope).mem_iff.2 (List.mem_map_of_mem hmem))

/-- Enumerations that share a scope are gone through one behind another. -/
theorem foldlM_flatMap_declarations
    (hnames : (known.map Prod.fst ++
      (enums.flatMap EnumType.values).map (Names.constant params)).Nodup) :
    (enums.flatMap (Constants.declarations params)).foldlM (declare params.enumStyle) known =
      some (known ++ (enums.flatMap Constants.declaredValues).map (numbered params)) := by
  induction enums generalizing known with
  | nil => simp
  | cons enum enums ih =>
    rw [List.flatMap_cons, List.map_append, ← List.append_assoc] at hnames
    have hperm := ((Partition.ofEnum_perm enum).map (Names.constant params)).append_left
      (known.map Prod.fst)
    have hfirst := foldlM_declarations (List.nodup_append.1 hnames).1
    rw [List.flatMap_cons, List.foldlM_append, hfirst]
    change (enums.flatMap (Constants.declarations params)).foldlM (declare params.enumStyle)
      (known ++ (Constants.declaredValues enum).map (numbered params)) = _
    rw [ih, List.flatMap_cons, List.map_append, List.append_assoc]
    rw [List.map_append, List.map_map]
    exact (hperm.append_right _).nodup_iff.2 hnames

theorem number?_constant (hnames : ((scope.declarations params).map Declaration.name).Nodup)
    (hmem : value ∈ scope.values) :
    scope.number? params (Names.constant params value) = some value.number := by
  have hvalues := (map_name_declarations_perm params scope).nodup_iff.1 hnames
  have hevaluate : evaluate params.enumStyle (scope.declarations params) =
      some (scope.declaredValues.map (numbered params)) := foldlM_flatMap_declarations hvalues
  rw [map_name_declarations] at hnames
  rw [number?, hevaluate]
  exact lookup_map_of_nodup hnames (scope.declaredValues_perm.mem_iff.2 hmem)

end Scope

namespace Pool

variable {params : Params} {pool : Pool} {enum : EnumType} {value : EnumValue}

/-- The constant of a value has its scope, where it is named as fields name their defaults. -/
theorem exists_scope (params : Params) (henum : enum ∈ pool.enums) (hplace : enum.InPlace)
    (hmem : value ∈ enum.values) :
    ∃ scope ∈ pool.scopes params, value ∈ scope.values ∧
      Names.constantRef params value = scope.reference (Names.constant params value) := by
  unfold scopes Names.constantRef
  cases params.enumStyle with
  | shell =>
    refine ⟨_, List.mem_map_of_mem henum, by simpa [Scope.values] using hmem, ?_⟩
    rw [hplace.enumName_of_mem hmem]
    rfl
  | flat => exact ⟨_, List.mem_singleton_self _, List.mem_flatMap.2 ⟨enum, henum, hmem⟩, rfl⟩

end Pool
end EnumWire
