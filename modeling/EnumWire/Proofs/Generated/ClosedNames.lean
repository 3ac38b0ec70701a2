import EnumWire.Proofs.Generated.MessageSource

/-! # The names that a message uses

The parts of a message come from separate generators, which meet only in names. Wherever a message
speaks of its size cache it means its packed fields, it binds a name without an underscore exactly
where a part reads it, and a singular field is present in one and the same sense throughout. -/
namespace EnumWire

open MessageSource

namespace Field

/-- What a field is called in the size cache, if it is there. -/
def cachedName? (field : Field) : Option Text :=
  match field.kind with
  | .packed => some (Names.field field)
  | _ => none

/-- How a field is told to be present, if it may be absent. -/
def presence? (params : Params) (field : Field) : Option Accessor :=
  match field.kind with
  | .singular => some (field.accessor params)
  | _ => none

variable (params : Params) (field : Field)

theorem kept?_sizing : (field.sizing params).kept? = field.cachedName? := by
  unfold sizing cachedName?
  cases field.kind <;> rfl

theorem reset?_sizing : (field.sizing params).reset? = field.cachedName? := by
  unfold sizing cachedName?
  cases field.kind <;> rfl

theorem cached?_writing : (field.writing params).cached? = field.cachedName? := by
  unfold writing cachedName?
  cases field.kind <;> rfl

theorem called?_mergingSource :
    field.mergingSource.called? = (field.presence? params).map Accessor.name := by
  unfold mergingSource presence?
  cases field.kind <;> rfl

theorem guard?_writing :
    (field.writing params).guard? = (field.presence? params).map Accessor.comparison := by
  unfold writing presence?
  cases field.kind <;> rfl

theorem guard?_sizing :
    (field.sizing params).guard? = (field.presence? params).map Accessor.comparison := by
  unfold sizing presence?
  cases field.kind <;> rfl

theorem cachedName?_eq_none_iff : field.cachedName? = none ↔ field.hasSizeCache = false := by
  unfold cachedName? hasSizeCache
  cases field.kind <;> simp

end Field

namespace Message

variable (params : Params) (message : Message)

/-- What the fields of one kind say, where the others say nothing. -/
theorem map_filter_kind {α : Type} (fields : List Field) {kind : FieldKind} {part : Field → α}
    {part? : Field → Option α}
    (h : ∀ field, part? field = if field.kind = kind then some (part field) else none) :
    (fields.filter fun field => field.kind = kind).map part = fields.filterMap part? := by
  rw [← List.filterMap_eq_map, List.filterMap_filter]
  refine List.filterMap_congr fun field _ => ?_
  rw [h]
  simp only [decide_eq_true_eq, Function.comp]

theorem packedNames_eq : message.packedNames = message.fields.filterMap Field.cachedName? :=
  map_filter_kind _ fun field => by
    unfold Field.cachedName?
    cases field.kind <;> rfl

theorem accessors_source :
    (message.source params).accessors = message.fields.filterMap (Field.presence? params) :=
  map_filter_kind _ fun field => by
    unfold Field.presence?
    cases field.kind <;> rfl

/-- Some fragment reads the size cache exactly where the message keeps one. -/
theorem exists_cached_iff :
    (∃ writing ∈ (message.source params).writing, writing.cached? ≠ none) ↔
      message.hasSizeCache = true := by
  rw [hasSizeCache, List.any_eq_true]
  constructor
  · rintro ⟨_, hmem, hcached⟩
    obtain ⟨field, hfield, rfl⟩ := List.mem_map.1 hmem
    rw [Field.cached?_writing, ne_eq, Field.cachedName?_eq_none_iff, Bool.not_eq_false] at hcached
    exact ⟨field, hfield, hcached⟩
  · rintro ⟨field, hfield, hcached⟩
    refine ⟨field.writing params, List.mem_map_of_mem hfield, ?_⟩
    rwa [Field.cached?_writing, ne_eq, Field.cachedName?_eq_none_iff, Bool.not_eq_false]

/-- What the parts of the fields say, field by field. -/
theorem map_parts {α β : Type} (fields : List Field) {part : Field → α} {said : α → β}
    {meant : Field → β} (h : ∀ field, said (part field) = meant field) :
    (fields.map part).map said = fields.map meant := by
  rw [List.map_map]
  exact List.map_congr_left fun field _ => h field

/-- Names that one part of a source uses are the ones that another part declares. -/
structure ClosesNames (source : MessageSource) : Prop where
  cacheMembers : source.cacheMembers = message.fields.filterMap Field.cachedName?
  cacheAccessors : source.cacheAccessors.map CacheAccessor.name = source.cacheMembers
  cacheAccessors_member : source.cacheAccessors.map CacheAccessor.member = source.cacheMembers
  cacheStart : source.cacheStart = source.cacheMembers
  /-- Set where there are elements, reset where there are none, and read: by each packed field. -/
  sizing_kept : source.sizing.map Sizing.kept? = message.fields.map Field.cachedName?
  sizing_reset : source.sizing.map Sizing.reset? = message.fields.map Field.cachedName?
  writing_cached : source.writing.map Writing.cached? = message.fields.map Field.cachedName?
  cacheBinding : source.cacheBinding =
    (if ∃ writing ∈ source.writing, writing.cached? ≠ none then "size_cache" else "_size_cache" :
      Text)
  otherName : source.otherName = (if message.fields ≠ [] then "other" else "_other" : Text)
  outputName : source.outputName = (if message.fields ≠ [] then "output" else "_output" : Text)
  /-- Each singular field has one accessor, and no other field has any. -/
  accessors : source.accessors = message.fields.filterMap (Field.presence? params)
  merging_called : source.merging.map Merging.called? =
    message.fields.map fun field => (field.presence? params).map Accessor.name
  writing_guard : source.writing.map Writing.guard? =
    message.fields.map fun field => (field.presence? params).map Accessor.comparison
  sizing_guard : source.sizing.map Sizing.guard? =
    message.fields.map fun field => (field.presence? params).map Accessor.comparison

theorem closesNames_source : message.ClosesNames params (message.source params) where
  cacheMembers := message.packedNames_eq
  cacheAccessors := by
    change (message.packedNames.map _).map _ = message.packedNames
    rw [List.map_map]
    exact List.map_id _
  cacheAccessors_member := by
    change (message.packedNames.map _).map _ = message.packedNames
    rw [List.map_map]
    exact List.map_id _
  cacheStart := rfl
  sizing_kept := map_parts _ fun field => field.kept?_sizing params
  sizing_reset := map_parts _ fun field => field.reset?_sizing params
  writing_cached := map_parts _ fun field => field.cached?_writing params
  cacheBinding := by
    change (if message.hasSizeCache then _ else _) = _
    simp only [exists_cached_iff]
  otherName := by
    change (if message.fields.isEmpty then _ else _) = _
    cases message.fields <;> rfl
  outputName := by
    change (if message.fields.isEmpty then _ else _) = _
    cases message.fields <;> rfl
  accessors := message.accessors_source params
  merging_called := map_parts _ fun field => field.called?_mergingSource params
  writing_guard := map_parts _ fun field => field.guard?_writing params
  sizing_guard := map_parts _ fun field => field.guard?_sizing params

/-- A message prints a source that is closed under its own names. -/
theorem script_closes_names :
    (message.script params).text = .ok (message.source params).text ∧
      message.ClosesNames params (message.source params) :=
  ⟨(message.printsLines_script params).text_eq, message.closesNames_source params⟩

end Message
end EnumWire
