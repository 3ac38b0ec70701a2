import EnumWire.Proofs.Generated.ConstantNames

/-! # Keywords and declared names

A module declares no keyword: where a name stands for itself it is escaped, and elsewhere it has an
underscore or a capital beside it that no keyword has. -/
namespace EnumWire

namespace Names

/-- The words that the target language keeps for itself, those it has no use for yet included. -/
def keywords : List Text :=
  (["as", "break", "const", "continue", "crate", "else", "enum", "extern", "false", "fn", "for",
    "if", "impl", "in", "let", "loop", "match", "mod", "move", "mut", "pub", "ref", "return",
    "self", "Self", "static", "struct", "super", "trait", "true", "type", "unsafe", "use", "where",
    "while", "async", "await", "dyn", "abstract", "become", "box", "do", "final", "macro",
    "override", "priv", "typeof", "unsized", "virtual", "yield", "try", "gen"] :
    List String).map String.toList

variable {name : Text}

theorem mem_keywords_iff : name ∈ keywords ↔ name ∈ rawKeywords ∨ name ∈ pathKeywords := by
  have hknown : ∀ keyword ∈ keywords, keyword ∈ rawKeywords ∨ keyword ∈ pathKeywords := by
    decide +kernel
  have hraw : ∀ keyword ∈ rawKeywords, keyword ∈ keywords := by decide +kernel
  have hpath : ∀ keyword ∈ pathKeywords, keyword ∈ keywords := by decide +kernel
  exact ⟨hknown name, fun h => h.elim (hraw name) (hpath name)⟩

theorem escape_not_mem_keywords (name : Text) : escape name ∉ keywords := by
  rw [mem_keywords_iff, not_or]
  by_cases hraw : name ∈ rawKeywords
  · rw [escape_of_raw hraw]
    exact not_mem_keywords_of_raw name
  by_cases hpath : name ∈ pathKeywords
  · rw [escape_of_path hraw hpath]
    exact not_mem_keywords_of_underscore hpath
  · rw [escape_of_plain hraw hpath]
    exact ⟨hraw, hpath⟩

theorem not_mem_keywords_of_mem {c : Char} (hc : c = '_' ∨ c = 'C') (hmem : c ∈ name) :
    name ∉ keywords := by
  have hunderscore : ∀ keyword ∈ keywords, '_' ∉ keyword := by decide +kernel
  have hletter : ∀ keyword ∈ keywords, 'C' ∉ keyword := by decide +kernel
  intro hkeyword
  rcases hc with rfl | rfl
  · exact hunderscore name hkeyword hmem
  · exact hletter name hkeyword hmem

theorem constant_not_mem_keywords (params : Params) (value : EnumValue) :
    constant params value ∉ keywords := by
  unfold constant
  cases params.enumStyle with
  | shell => exact escape_not_mem_keywords value.name
  | flat =>
    have hmem : '_' ∈ CaseStyle.screaming value.enumName ++ "_".toList :=
      List.mem_append_right _ (by decide)
    exact not_mem_keywords_of_mem (.inl rfl) (List.mem_append_left _ hmem)

theorem presenceAccessor_not_mem_keywords (field : Field) : presenceAccessor field ∉ keywords :=
  have hmem : '_' ∈ "has_".toList := by decide
  not_mem_keywords_of_mem (.inl rfl) (List.mem_append_left _ hmem)

theorem sizeCache_not_mem_keywords (messageName : Text) : sizeCache messageName ∉ keywords :=
  have hmem : 'C' ∈ "SizeCache".toList := by decide
  not_mem_keywords_of_mem (.inr rfl) (List.mem_append_right _ hmem)

end Names

/-- The type of a scope and its constants. -/
def Scope.declaredNames (params : Params) (scope : Scope) : List Text :=
  scope.type?.toList ++ (scope.declarations params).map Constants.Declaration.name

/-- The types of a message, their members, and the methods and bindings that take a name. -/
def MessageSource.declaredNames (source : MessageSource) : List Text :=
  [source.name, source.cacheName] ++ source.members.map Member.name ++
    source.accessors.map Accessor.name ++ source.cacheMembers ++
    source.cacheAccessors.map CacheAccessor.name ++
    [source.otherName, source.outputName, source.cacheBinding]

/-- What a module declares, in the parts that make up its text. -/
def Module.declaredNames (params : Params) (pool : Pool) : List Text :=
  (pool.scopes params).flatMap (Scope.declaredNames params) ++
    if emitsMessages params pool then
      pool.messages.flatMap fun message => (message.source params).declaredNames
    else []

variable {params : Params} {pool : Pool} {name : Text}

theorem Scope.declaredNames_not_mem_keywords {scope : Scope} (hscope : scope ∈ pool.scopes params) :
    ∀ name ∈ scope.declaredNames params, name ∉ Names.keywords := by
  have htypes : ∀ name ∈ scope.type?, name ∉ Names.keywords := by
    unfold Pool.scopes at hscope
    cases hstyle : params.enumStyle with
    | shell =>
      rw [hstyle] at hscope
      obtain ⟨enum, -, rfl⟩ := List.mem_map.1 hscope
      rintro _ ⟨⟩
      exact Names.escape_not_mem_keywords enum.name
    | flat =>
      rw [hstyle] at hscope
      obtain rfl := List.mem_singleton.1 hscope
      rintro _ ⟨⟩
  intro name hname
  obtain htype | hconstant := List.mem_append.1 hname
  · exact htypes name (Option.mem_toList.1 htype)
  · rw [(scope.map_name_declarations_perm params).mem_iff] at hconstant
    obtain ⟨value, -, rfl⟩ := List.mem_map.1 hconstant
    exact Names.constant_not_mem_keywords params value

theorem Message.declaredNames_not_mem_keywords (params : Params) (message : Message) :
    ∀ name ∈ (message.source params).declaredNames, name ∉ Names.keywords := by
  have hpacked : ∀ name ∈ message.packedNames, name ∉ Names.keywords :=
    List.forall_mem_map.2 fun field _ => Names.escape_not_mem_keywords _
  -- Bindings have fixed names; some begin with an underscore.
  have hother : (message.source params).otherName ∉ Names.keywords := by
    simp only [source]
    split <;> decide +kernel
  have houtput : (message.source params).outputName ∉ Names.keywords := by
    simp only [source]
    split <;> decide +kernel
  have hcache : (message.source params).cacheBinding ∉ Names.keywords := by
    simp only [source]
    split <;> decide +kernel
  simp only [MessageSource.declaredNames, List.forall_mem_append, List.forall_mem_cons]
  refine ⟨⟨⟨⟨⟨⟨?_, ?_, nofun⟩, ?_⟩, ?_⟩, hpacked⟩, ?_⟩, hother, houtput, hcache, nofun⟩
  · exact Names.escape_not_mem_keywords message.name
  · exact Names.sizeCache_not_mem_keywords message.name
  · rw [source, List.map_map]
    exact List.forall_mem_map.2 fun field _ => Names.escape_not_mem_keywords _
  · rw [source, List.map_map]
    exact List.forall_mem_map.2 fun field _ => Names.presenceAccessor_not_mem_keywords field
  · rw [source, List.map_map]
    exact List.forall_mem_map.2 hpacked

theorem Module.declaredNames_not_mem_keywords (params : Params) (pool : Pool) :
    ∀ name ∈ declaredNames params pool, name ∉ Names.keywords := by
  unfold declaredNames
  rw [List.forall_mem_append]
  constructor
  · intro name hname
    obtain ⟨scope, hscope, hname⟩ := List.mem_flatMap.1 hname
    exact Scope.declaredNames_not_mem_keywords hscope name hname
  · intro name hname
    split at hname
    · obtain ⟨message, -, hname⟩ := List.mem_flatMap.1 hname
      exact message.declaredNames_not_mem_keywords params name hname
    · cases hname

end EnumWire
