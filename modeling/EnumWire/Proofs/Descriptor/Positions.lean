import EnumWire.Descriptor.Basic

/-! # Values and their positions

A descriptor keeps the names and numbers of its definition in their order, and its values know their
positions. So a value is told by its index, and what a search finds first has the least index of all
that it could find. -/
namespace EnumWire

namespace EnumType

variable {enum : EnumType} {u v : EnumValue}

/-- Every value stands at its index. -/
def Indexed (enum : EnumType) : Prop :=
  ∀ (i : Nat) (value : EnumValue), enum.values[i]? = some value → value.index = i

/-- The values of an enumeration know their positions and the enumeration. -/
def InPlace (enum : EnumType) : Prop :=
  ∀ (i : Nat) (value : EnumValue), enum.values[i]? = some value →
    value.index = i ∧ value.enumName = enum.name

theorem inPlace_ofDef (definition : EnumDef) : (ofDef definition).InPlace := by
  intro i value h
  rw [ofDef, List.getElem?_mapIdx, Option.map_eq_some_iff] at h
  obtain ⟨_, -, rfl⟩ := h
  exact ⟨rfl, rfl⟩

theorem indexed_ofDef (definition : EnumDef) : (ofDef definition).Indexed :=
  fun i value h => (inPlace_ofDef definition i value h).1

theorem InPlace.enumName_of_mem (h : enum.InPlace) (hv : v ∈ enum.values) :
    v.enumName = enum.name := by
  obtain ⟨i, hi⟩ := List.getElem?_of_mem hv
  exact (h i v hi).2

theorem map_name_number_ofDef (definition : EnumDef) :
    (ofDef definition).values.map (fun value => (value.name, value.number)) =
      definition.values.map fun value => (value.name, value.number) := by
  refine List.ext_getElem? fun i => ?_
  simp [ofDef, Function.comp_def]

namespace Indexed

variable (h : enum.Indexed)
include h

theorem getElem?_index (hv : v ∈ enum.values) : enum.values[v.index]? = some v := by
  obtain ⟨i, hi⟩ := List.getElem?_of_mem hv
  rwa [h i v hi]

theorem eq_of_index (hu : u ∈ enum.values) (hv : v ∈ enum.values) (hindex : u.index = v.index) :
    u = v := by
  have hat := h.getElem?_index hu
  rw [hindex, h.getElem?_index hv] at hat
  exact (Option.some.inj hat).symm

theorem ascending : enum.values.Pairwise fun earlier later => earlier.index < later.index := by
  refine List.pairwise_iff_getElem.2 fun i j hi hj hij => ?_
  rwa [h i _ (List.getElem?_eq_getElem hi), h j _ (List.getElem?_eq_getElem hj)]

theorem nodup : enum.values.Nodup := by
  refine h.ascending.imp fun hlt heq => ?_
  rw [heq] at hlt
  exact Nat.lt_irrefl _ hlt

theorem index_le_of_find? {p : EnumValue → Bool} (hu : enum.values.find? p = some u)
    (hv : v ∈ enum.values) (hp : p v = true) : u.index ≤ v.index := by
  obtain ⟨-, i, hi, rfl, hleast⟩ := List.find?_eq_some_iff_getElem.1 hu
  obtain ⟨j, hj, rfl⟩ := List.getElem_of_mem hv
  rw [h i _ (List.getElem?_eq_getElem hi), h j _ (List.getElem?_eq_getElem hj)]
  refine Nat.le_of_not_lt fun hlt => ?_
  have := hleast j hlt
  simp [hp] at this

end Indexed
end EnumType

/-! ### What a definition becomes -/

structure EnumDef.ResolvesTo (definition : EnumDef) (enum : EnumType) : Prop where
  name : enum.name = definition.name
  values : enum.values.map (fun value => (value.name, value.number)) =
    definition.values.map fun value => (value.name, value.number)
  inPlace : enum.InPlace

namespace EnumDef

variable {definition : EnumDef} {enum : EnumType}

theorem resolvesTo_ofDef (definition : EnumDef) : definition.ResolvesTo (.ofDef definition) where
  name := rfl
  values := EnumType.map_name_number_ofDef definition
  inPlace := EnumType.inPlace_ofDef definition

theorem ResolvesTo.map_name (h : definition.ResolvesTo enum) :
    enum.values.map EnumValue.name = definition.values.map EnumValueDef.name := by
  simpa [Function.comp_def] using congrArg (List.map Prod.fst) h.values

end EnumDef
end EnumWire
