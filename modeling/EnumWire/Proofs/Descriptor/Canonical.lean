import EnumWire.Descriptor.Partition
import EnumWire.Proofs.Descriptor.Positions

/-! # Canonical values stand for all values of their number

Going by the table of first indices, a value is canonical exactly when it is what its number finds,
and an alias stands for what its number finds. Everything else about a partition follows from these
two facts and from the order of the values. -/
namespace EnumWire.Partition

variable {enum : EnumType} {before rest : List EnumValue} {value : EnumValue} {entry : Alias}

/-! ### The table of first indices -/

theorem lookup_noteFirst (known : List (Int32 × Nat)) (entry : EnumValue × Nat) (number : Int32) :
    (noteFirst known entry).lookup number =
      (known.lookup number).or (if entry.1.number = number then some entry.2 else none) := by
  unfold noteFirst
  split
  · rename_i hknown
    by_cases hnumber : entry.1.number = number
    · rw [if_pos hnumber, ← hnumber]
      obtain ⟨index, hindex⟩ := Option.isSome_iff_exists.1 hknown
      rw [hindex]
      rfl
    · rw [if_neg hnumber, Option.or_none]
  · rename_i hknown
    rw [List.lookup_cons]
    by_cases hnumber : entry.1.number = number
    · rw [if_pos hnumber, ← hnumber, beq_self_eq_true, Option.not_isSome_iff_eq_none.1 hknown]
      rfl
    · rw [if_neg hnumber, beq_false_of_ne (Ne.symm hnumber), Option.or_none]

theorem lookup_foldl_noteFirst (known : List (Int32 × Nat)) (values : List EnumValue) (start : Nat)
    (number : Int32) :
    ((values.zipIdx start).foldl noteFirst known).lookup number =
      (known.lookup number).or
        ((values.findIdx? fun value => value.number = number).map (· + start)) := by
  induction values generalizing known start with
  | nil => simp
  | cons value values ih =>
    rw [List.zipIdx_cons, List.foldl_cons, ih, lookup_noteFirst, Option.or_assoc, List.findIdx?_cons]
    congr 1
    by_cases hnumber : value.number = number
    · simp [hnumber]
    · simp [hnumber, Option.map_map, Function.comp_def, Nat.add_assoc, Nat.add_comm 1]

theorem lookup_firstIndices (values : List EnumValue) (number : Int32) :
    (firstIndices values).lookup number = values.findIdx? fun value => value.number = number := by
  rw [firstIndices, lookup_foldl_noteFirst]
  simp

/-! ### One value after the other -/

/-- Divides values that come after those of `before`. -/
def splitAfter (before : List EnumValue) : List EnumValue → Partition
  | [] => ⟨[], []⟩
  | value :: rest =>
    let parts := splitAfter (before ++ [value]) rest
    match before.find? fun earlier => earlier.number = value.number with
    | none => { parts with canonicalValues := value :: parts.canonicalValues }
    | some canonical => { parts with aliases := ⟨value, canonical⟩ :: parts.aliases }

theorem findIdx?_of_find? {α : Type} {p : α → Bool} {xs : List α} {x : α} (h : xs.find? p = some x) :
    ∃ i, xs.findIdx? p = some i ∧ xs[i]? = some x := by
  obtain ⟨hp, i, hi, rfl, hmin⟩ := List.find?_eq_some_iff_getElem.1 h
  refine ⟨i, List.findIdx?_eq_some_iff_getElem.2 ⟨hi, hp, ?_⟩, List.getElem?_eq_getElem hi⟩
  intro j hj
  simpa using hmin j hj

/-- The table answers with a value that comes before, if there is one with the number, and otherwise
with the index of the value itself; both indices are in range. -/
theorem place_eq_splitAfter (before rest : List EnumValue) :
    place (before ++ rest) (firstIndices (before ++ rest)) (rest.zipIdx before.length) =
      splitAfter before rest := by
  induction rest generalizing before with
  | nil => rfl
  | cons value rest ih =>
    have htail := ih (before ++ [value])
    rw [List.append_assoc, List.singleton_append, List.length_append, List.length_singleton] at htail
    rw [List.zipIdx_cons, place, htail, splitAfter, lookup_firstIndices, List.findIdx?_append]
    cases hfind : before.find? fun earlier => earlier.number = value.number with
    | none =>
      have hbefore : before.findIdx? (fun earlier => earlier.number = value.number) = none :=
        List.findIdx?_eq_none_iff.2 fun earlier h => by
          simpa using List.find?_eq_none.1 hfind earlier h
      simp [hbefore, List.findIdx?_cons]
    | some canonical =>
      obtain ⟨i, hi, hvalue⟩ := findIdx?_of_find? hfind
      have hlt : i < before.length := (List.getElem?_eq_some_iff.1 hvalue).1
      simp only [hi, Option.some_or]
      rw [if_neg (Nat.ne_of_lt hlt), List.getElem?_append_left hlt, hvalue]

theorem ofEnum_eq (enum : EnumType) : ofEnum enum = splitAfter [] enum.values :=
  place_eq_splitAfter [] enum.values

/-! ### What the parts hold -/

theorem canonicalValues_splitAfter_sublist (before rest : List EnumValue) :
    (splitAfter before rest).canonicalValues.Sublist rest := by
  induction rest generalizing before with
  | nil => exact List.Sublist.refl []
  | cons value rest ih =>
    rw [splitAfter]
    split
    · exact (ih _).cons_cons value
    · exact (ih _).cons value

theorem aliases_splitAfter_sublist (before rest : List EnumValue) :
    ((splitAfter before rest).aliases.map Alias.value).Sublist rest := by
  induction rest generalizing before with
  | nil => exact List.Sublist.refl []
  | cons value rest ih =>
    rw [splitAfter]
    split
    · exact (ih _).cons value
    · exact (ih _).cons_cons value

theorem splitAfter_perm (before rest : List EnumValue) :
    ((splitAfter before rest).canonicalValues ++
      (splitAfter before rest).aliases.map Alias.value).Perm rest := by
  induction rest generalizing before with
  | nil => exact List.Perm.refl []
  | cons value rest ih =>
    rw [splitAfter]
    split
    · exact (ih _).cons value
    · exact List.perm_middle.trans ((ih _).cons value)

theorem find?_of_mem_canonicalValues (h : value ∈ (splitAfter before rest).canonicalValues) :
    (before.find? fun earlier => earlier.number = value.number) = none ∧
    (rest.find? fun earlier => earlier.number = value.number) = some value := by
  induction rest generalizing before with
  | nil => cases h
  | cons head rest ih =>
    rw [splitAfter] at h
    split at h
    · rename_i hhead
      rcases List.mem_cons.1 h with rfl | htail
      · exact ⟨hhead, List.find?_cons_of_pos (by simp)⟩
      · obtain ⟨hnone, hsome⟩ := ih htail
        rw [List.find?_append, Option.or_eq_none_iff] at hnone
        exact ⟨hnone.1, by rw [List.find?_cons_of_neg (by simpa using hnone.2)]; exact hsome⟩
    · obtain ⟨hnone, hsome⟩ := ih h
      rw [List.find?_append, Option.or_eq_none_iff] at hnone
      exact ⟨hnone.1, by rw [List.find?_cons_of_neg (by simpa using hnone.2)]; exact hsome⟩

theorem mem_canonicalValues_of_find? {number : Int32}
    (hbefore : (before.find? fun earlier => earlier.number = number) = none)
    (h : (rest.find? fun earlier => earlier.number = number) = some value) :
    value ∈ (splitAfter before rest).canonicalValues := by
  induction rest generalizing before with
  | nil => cases h
  | cons head rest ih =>
    rw [splitAfter]
    by_cases hhead : head.number = number
    · rw [List.find?_cons_of_pos (by simpa using hhead)] at h
      obtain rfl := Option.some.inj h
      rw [hhead, hbefore]
      exact List.mem_cons_self
    · rw [List.find?_cons_of_neg (by simpa using hhead)] at h
      have htail : value ∈ (splitAfter (before ++ [head]) rest).canonicalValues :=
        ih (by simp [hbefore, hhead]) h
      split
      · exact List.mem_cons_of_mem _ htail
      · exact htail

theorem find?_of_mem_aliases (h : entry ∈ (splitAfter before rest).aliases) :
    ((before ++ rest).find? fun earlier => earlier.number = entry.value.number) =
      some entry.canonical := by
  induction rest generalizing before with
  | nil => cases h
  | cons head rest ih =>
    rw [← List.singleton_append, ← List.append_assoc]
    rw [splitAfter] at h
    split at h
    · exact ih h
    · rename_i canonical hhead
      rcases List.mem_cons.1 h with rfl | htail
      · rw [List.append_assoc, List.find?_append, hhead]
        rfl
      · exact ih htail

theorem nodup_numbers_splitAfter (before rest : List EnumValue) :
    ((splitAfter before rest).canonicalValues.map EnumValue.number).Nodup := by
  induction rest generalizing before with
  | nil => exact List.nodup_nil
  | cons head rest ih =>
    rw [splitAfter]
    split
    · refine List.nodup_cons.2 ⟨?_, ih _⟩
      -- A later value with the number of `head` would not be canonical behind it.
      intro hmem
      obtain ⟨later, hlater, hnumber⟩ := List.mem_map.1 hmem
      have hnone := (find?_of_mem_canonicalValues hlater).1
      simp [hnumber] at hnone
    · exact ih _

/-! ### The partition of an enumeration -/

theorem mem_canonicalValues_iff :
    value ∈ (ofEnum enum).canonicalValues ↔ enum.findNumber? value.number = some value := by
  rw [ofEnum_eq]
  exact ⟨fun h => (find?_of_mem_canonicalValues h).2, mem_canonicalValues_of_find? rfl⟩

theorem findNumber?_of_mem_aliases (h : entry ∈ (ofEnum enum).aliases) :
    enum.findNumber? entry.value.number = some entry.canonical := by
  rw [ofEnum_eq] at h
  exact find?_of_mem_aliases h

theorem number_of_findNumber? {number : Int32} (h : enum.findNumber? number = some value) :
    value.number = number := by
  simpa using List.find?_some h

theorem mem_of_findNumber? {number : Int32} (h : enum.findNumber? number = some value) :
    value ∈ enum.values :=
  List.mem_of_find?_eq_some h

theorem findNumber?_isSome (h : value ∈ enum.values) :
    ∃ canonical, enum.findNumber? value.number = some canonical :=
  Option.isSome_iff_exists.1 (List.find?_isSome.2 ⟨value, h, by simp⟩)

theorem canonical_number (h : entry ∈ (ofEnum enum).aliases) :
    entry.canonical.number = entry.value.number :=
  number_of_findNumber? (findNumber?_of_mem_aliases h)

theorem canonical_mem (h : entry ∈ (ofEnum enum).aliases) :
    entry.canonical ∈ (ofEnum enum).canonicalValues := by
  rw [mem_canonicalValues_iff, canonical_number h]
  exact findNumber?_of_mem_aliases h

theorem ofEnum_perm (enum : EnumType) :
    ((ofEnum enum).canonicalValues ++ (ofEnum enum).aliases.map Alias.value).Perm enum.values := by
  rw [ofEnum_eq]
  exact splitAfter_perm [] enum.values

theorem canonicalValues_sublist (enum : EnumType) :
    (ofEnum enum).canonicalValues.Sublist enum.values := by
  rw [ofEnum_eq]
  exact canonicalValues_splitAfter_sublist [] enum.values

theorem aliases_sublist (enum : EnumType) :
    ((ofEnum enum).aliases.map Alias.value).Sublist enum.values := by
  rw [ofEnum_eq]
  exact aliases_splitAfter_sublist [] enum.values

/-! ### Values that know their positions -/

section Indexed

variable (hindexed : enum.Indexed)
include hindexed

theorem isCanonical_iff_mem (hmem : value ∈ enum.values) :
    (ofEnum enum).isCanonical value = true ↔ value ∈ (ofEnum enum).canonicalValues := by
  rw [isCanonical, List.any_eq_true]
  constructor
  · rintro ⟨canonical, hcanonical, hindex⟩
    have heq := hindexed.eq_of_index ((canonicalValues_sublist enum).subset hcanonical) hmem
      (by simpa using hindex)
    exact heq ▸ hcanonical
  · intro h
    exact ⟨value, h, by simp⟩

theorem isCanonical_iff (hmem : value ∈ enum.values) :
    (ofEnum enum).isCanonical value = true ↔
      ∀ earlier ∈ enum.values, earlier.index < value.index → earlier.number ≠ value.number := by
  rw [isCanonical_iff_mem hindexed hmem, mem_canonicalValues_iff]
  constructor
  · intro h earlier hearlier hlt hnumber
    have hle := hindexed.index_le_of_find? h hearlier (by simpa using hnumber)
    omega
  · intro h
    obtain ⟨first, hfirst⟩ := findNumber?_isSome hmem
    have hle := hindexed.index_le_of_find? hfirst hmem (by simp)
    rcases Nat.lt_or_eq_of_le hle with hlt | heq
    · exact absurd (number_of_findNumber? hfirst) (h first (mem_of_findNumber? hfirst) hlt)
    · obtain rfl := hindexed.eq_of_index (mem_of_findNumber? hfirst) hmem heq
      exact hfirst

theorem canonical_index_lt (h : entry ∈ (ofEnum enum).aliases) :
    entry.canonical.index < entry.value.index := by
  have hvalue : entry.value ∈ (ofEnum enum).aliases.map Alias.value := List.mem_map_of_mem h
  have hle := hindexed.index_le_of_find? (findNumber?_of_mem_aliases h)
    ((aliases_sublist enum).subset hvalue) (by simp)
  refine Nat.lt_of_le_of_ne hle fun heq => ?_
  -- Otherwise one value would stand in both parts, which together hold each value once.
  have heq := hindexed.eq_of_index ((canonicalValues_sublist enum).subset (canonical_mem h))
    ((aliases_sublist enum).subset hvalue) heq
  have hparts := (ofEnum_perm enum).nodup_iff.2 hindexed.nodup
  exact (List.nodup_append.1 hparts).2.2 _ (canonical_mem h) _ hvalue heq

theorem merge_eq :
    List.merge (ofEnum enum).canonicalValues ((ofEnum enum).aliases.map Alias.value)
      (fun u v => u.index ≤ v.index) = enum.values := by
  have hle {values : List EnumValue} (h : values.Sublist enum.values) :
      values.Pairwise fun u v => decide (u.index ≤ v.index) = true :=
    (hindexed.ascending.sublist h).imp fun hlt => decide_eq_true (Nat.le_of_lt hlt)
  have hsorted := List.pairwise_merge (fun u v w : EnumValue => by simpa using Nat.le_trans)
    (fun u v => by simpa using Nat.le_total u.index v.index) _ _ (hle (canonicalValues_sublist enum))
    (hle (aliases_sublist enum))
  have hperm := (List.merge_perm_append fun u v : EnumValue => decide (u.index ≤ v.index)).trans
    (ofEnum_perm enum)
  refine List.Perm.eq_of_pairwise ?_ hsorted (hle (List.Sublist.refl _)) hperm
  intro u v hu hv huv hvu
  exact hindexed.eq_of_index (hperm.subset hu) hv
    (Nat.le_antisymm (of_decide_eq_true huv) (of_decide_eq_true hvu))

theorem findNumber?_eq_canonicalOf (hmem : value ∈ enum.values) :
    enum.findNumber? value.number = some ((ofEnum enum).canonicalOf value) := by
  unfold canonicalOf
  split
  · rename_i entry hfind
    have hentry := List.mem_of_find?_eq_some hfind
    have hindex : entry.value.index = value.index := by simpa using List.find?_some hfind
    have hvalue := (aliases_sublist enum).subset (List.mem_map_of_mem hentry)
    rw [← hindexed.eq_of_index hvalue hmem hindex]
    exact findNumber?_of_mem_aliases hentry
  · rename_i hfind
    rw [← mem_canonicalValues_iff]
    refine (List.mem_append.1 ((ofEnum_perm enum).mem_iff.2 hmem)).resolve_right fun halias => ?_
    obtain ⟨entry, hentry, rfl⟩ := List.mem_map.1 halias
    have := List.find?_eq_none.1 hfind entry hentry
    simp at this

theorem canonicalOf_eq_self_iff (hmem : value ∈ enum.values) :
    (ofEnum enum).canonicalOf value = value ↔ (ofEnum enum).isCanonical value = true := by
  rw [isCanonical_iff_mem hindexed hmem, mem_canonicalValues_iff,
    findNumber?_eq_canonicalOf hindexed hmem, Option.some_inj]

theorem isCanonical_canonicalOf (hmem : value ∈ enum.values) :
    (ofEnum enum).isCanonical ((ofEnum enum).canonicalOf value) = true := by
  have hfind := findNumber?_eq_canonicalOf hindexed hmem
  rw [isCanonical_iff_mem hindexed (mem_of_findNumber? hfind), mem_canonicalValues_iff,
    number_of_findNumber? hfind]
  exact hfind

end Indexed

/-! ### Parts that fit the enumeration -/

/-- The canonical values and the aliases of an enumeration make it up, and the three ways to find a
canonical value (in the list, through the aliases and by number) agree. -/
structure Divides (enum : EnumType) (parts : Partition) : Prop where
  merged : List.merge parts.canonicalValues (parts.aliases.map Alias.value)
    (fun u v => u.index ≤ v.index) = enum.values
  canonicalValues_in_order : parts.canonicalValues.Sublist enum.values
  aliases_in_order : (parts.aliases.map Alias.value).Sublist enum.values
  isCanonical_iff_first : ∀ value ∈ enum.values, parts.isCanonical value = true ↔
    ∀ earlier ∈ enum.values, earlier.index < value.index → earlier.number ≠ value.number
  isCanonical_iff_listed : ∀ value ∈ enum.values,
    parts.isCanonical value = true ↔ value ∈ parts.canonicalValues
  numbers_distinct : (parts.canonicalValues.map EnumValue.number).Nodup
  canonical_of_alias : ∀ entry ∈ parts.aliases, parts.isCanonical entry.canonical = true ∧
    entry.canonical.number = entry.value.number ∧ entry.canonical.index < entry.value.index
  found_by_number : ∀ value ∈ enum.values,
    enum.findNumber? value.number = some (parts.canonicalOf value)
  canonicalOf_isCanonical : ∀ value ∈ enum.values,
    parts.isCanonical (parts.canonicalOf value) = true
  canonicalOf_idempotent : ∀ value ∈ enum.values,
    parts.canonicalOf (parts.canonicalOf value) = parts.canonicalOf value
  canonicalOf_eq_iff : ∀ value ∈ enum.values,
    parts.canonicalOf value = value ↔ parts.isCanonical value = true

/-- Whatever numbers repeat in a declaration, its descriptor keeps the declared values in their
order, and the partition divides them into those that come first with their numbers and aliases of
these. -/
theorem divides_ofDef (definition : EnumDef) :
    definition.ResolvesTo (EnumType.ofDef definition) ∧
    Divides (EnumType.ofDef definition) (ofEnum (EnumType.ofDef definition)) := by
  have hindexed := EnumType.indexed_ofDef definition
  exact ⟨EnumDef.resolvesTo_ofDef definition, {
    merged := merge_eq hindexed
    canonicalValues_in_order := canonicalValues_sublist _
    aliases_in_order := aliases_sublist _
    isCanonical_iff_first := fun value hmem => isCanonical_iff hindexed hmem
    isCanonical_iff_listed := fun value hmem => isCanonical_iff_mem hindexed hmem
    numbers_distinct := by
      rw [ofEnum_eq]
      exact nodup_numbers_splitAfter _ _
    canonical_of_alias := fun entry hentry =>
      have hcanonical := canonical_mem hentry
      have hmem := (canonicalValues_sublist _).subset hcanonical
      ⟨(isCanonical_iff_mem hindexed hmem).2 hcanonical, canonical_number hentry,
        canonical_index_lt hindexed hentry⟩
    found_by_number := fun value hmem => findNumber?_eq_canonicalOf hindexed hmem
    canonicalOf_isCanonical := fun value hmem => isCanonical_canonicalOf hindexed hmem
    canonicalOf_idempotent := fun value hmem =>
      have hfound := mem_of_findNumber? (findNumber?_eq_canonicalOf hindexed hmem)
      (canonicalOf_eq_self_iff hindexed hfound).2 (isCanonical_canonicalOf hindexed hmem)
    canonicalOf_eq_iff := fun value hmem => canonicalOf_eq_self_iff hindexed hmem }⟩

end EnumWire.Partition
