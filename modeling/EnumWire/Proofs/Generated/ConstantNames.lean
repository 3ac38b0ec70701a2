import EnumWire.Proofs.Descriptor.Building
import EnumWire.Proofs.Generated.Module
import EnumWire.Proofs.Generated.Scopes

/-! # Names of constants

Neither style gives every value a name of its own. In a block, a keyword falls together with a name
that is spelled as the keyword is escaped; in the module, the words of an enumeration fall together
with those of another one, or go on in the name of a value. No other names do. -/
namespace EnumWire

namespace Names

/-! ### Escaped names -/

theorem not_mem_keywords_of_raw (name : Text) :
    "r#" ++ name ∉ rawKeywords ∧ "r#" ++ name ∉ pathKeywords := by
  -- Keywords have letters only.
  have hraw : ∀ keyword ∈ rawKeywords, '#' ∉ keyword := by decide +kernel
  have hpath : ∀ keyword ∈ pathKeywords, '#' ∉ keyword := by decide +kernel
  have hmem : '#' ∈ "r#".toList ++ name := List.mem_append_left _ (by decide)
  exact ⟨fun h => hraw _ h hmem, fun h => hpath _ h hmem⟩

theorem not_mem_keywords_of_underscore {name : Text} (h : name ∈ pathKeywords) :
    name ++ "_" ∉ rawKeywords ∧ name ++ "_" ∉ pathKeywords := by
  have hall : ∀ keyword ∈ pathKeywords,
      keyword ++ "_" ∉ rawKeywords ∧ keyword ++ "_" ∉ pathKeywords := by
    decide +kernel
  exact hall name h

theorem raw_ne_underscore (name : Text) {other : Text} (h : other ∈ pathKeywords) :
    "r#".toList ++ name ≠ other ++ "_" := by
  have hhead : ∀ keyword ∈ pathKeywords, (keyword ++ "_").head? ≠ some 'r' := by decide +kernel
  exact fun heq => hhead other h (heq ▸ rfl)

theorem escape_of_raw {name : Text} (h : name ∈ rawKeywords) : escape name = "r#" ++ name := by
  rw [escape, if_pos (List.contains_iff_mem.2 h)]

theorem escape_of_path {name : Text} (hraw : name ∉ rawKeywords) (h : name ∈ pathKeywords) :
    escape name = name ++ "_" := by
  rw [escape, if_neg (mt List.contains_iff_mem.1 hraw), if_pos (List.contains_iff_mem.2 h)]

theorem escape_of_plain {name : Text} (hraw : name ∉ rawKeywords) (hpath : name ∉ pathKeywords) :
    escape name = name := by
  rw [escape, if_neg (mt List.contains_iff_mem.1 hraw), if_neg (mt List.contains_iff_mem.1 hpath)]

/-- What is escaped is no keyword any more. -/
theorem escape_escape (name : Text) : escape (escape name) = escape name := by
  by_cases hraw : name ∈ rawKeywords
  · rw [escape_of_raw hraw]
    exact escape_of_plain (not_mem_keywords_of_raw name).1 (not_mem_keywords_of_raw name).2
  by_cases hpath : name ∈ pathKeywords
  · rw [escape_of_path hraw hpath]
    exact escape_of_plain (not_mem_keywords_of_underscore hpath).1
      (not_mem_keywords_of_underscore hpath).2
  · rw [escape_of_plain hraw hpath, escape_of_plain hraw hpath]

theorem escape_inj_of_keywords {name other : Text} (hname : escape name ≠ name)
    (hother : escape other ≠ other) (h : escape name = escape other) : name = other := by
  by_cases hraw : name ∈ rawKeywords
  · rw [escape_of_raw hraw] at h
    by_cases hraw' : other ∈ rawKeywords
    · rw [escape_of_raw hraw'] at h
      exact List.append_cancel_left h
    by_cases hpath' : other ∈ pathKeywords
    · rw [escape_of_path hraw' hpath'] at h
      exact absurd h (raw_ne_underscore name hpath')
    · exact absurd (escape_of_plain hraw' hpath') hother
  by_cases hpath : name ∈ pathKeywords
  · rw [escape_of_path hraw hpath] at h
    by_cases hraw' : other ∈ rawKeywords
    · rw [escape_of_raw hraw'] at h
      exact absurd h.symm (raw_ne_underscore other hpath)
    by_cases hpath' : other ∈ pathKeywords
    · rw [escape_of_path hraw' hpath'] at h
      exact List.append_cancel_right h
    · exact absurd (escape_of_plain hraw' hpath') hother
  · exact absurd (escape_of_plain hraw hpath) hname

/-- Two names are only written alike if one of them is spelled as the other is written. -/
theorem escape_eq_escape_iff {name other : Text} (hne : name ≠ other) :
    escape name = escape other ↔ name = escape other ∨ other = escape name := by
  constructor
  · intro h
    by_cases hname : escape name = name
    · exact .inl (hname.symm.trans h)
    by_cases hother : escape other = other
    · exact .inr (hother.symm.trans h.symm)
    · exact absurd (escape_inj_of_keywords hname hother h) hne
  · rintro (h | h)
    · rw [h, escape_escape]
    · rw [h, escape_escape]

/-! ### Names with a prefix -/

theorem append_cons_eq_append_cons_iff {sep : Char} {s t u v : Text} :
    s ++ sep :: u = t ++ sep :: v ↔ s = t ∧ u = v ∨
      (∃ words, t = s ++ sep :: words ∧ u = words ++ sep :: v) ∨
      ∃ words, s = t ++ sep :: words ∧ v = words ++ sep :: u := by
  constructor
  · intro h
    rcases List.append_eq_append_iff.1 h with ⟨rest, ht, hrest⟩ | ⟨rest, hs, hrest⟩
    · cases rest with
      | nil => simp_all
      | cons c words =>
        obtain ⟨rfl, hu⟩ := List.cons.inj hrest
        exact .inr (.inl ⟨words, ht, hu⟩)
    · cases rest with
      | nil => simp_all
      | cons c words =>
        obtain ⟨rfl, hv⟩ := List.cons.inj hrest
        exact .inr (.inr ⟨words, hs, hv⟩)
  · rintro (⟨rfl, rfl⟩ | ⟨words, rfl, rfl⟩ | ⟨words, rfl, rfl⟩)
    · rfl
    · simp
    · simp

/-- The words of one enumeration go on in the name of a value of another one. -/
def Overlaps (value other : EnumValue) : Prop :=
  ∃ words, CaseStyle.screaming other.enumName =
      CaseStyle.screaming value.enumName ++ '_' :: words ∧
    value.name = words ++ '_' :: other.name

/-- When two values have the same constant: in a block, one of them is spelled as the other one is
escaped; in the module, they are of two enumerations with the same words or overlapping ones. -/
def Clash (style : EnumStyle) (value other : EnumValue) : Prop :=
  match style with
  | .shell => value.name = escape other.name ∨ other.name = escape value.name
  | .flat => value.enumName ≠ other.enumName ∧
    (CaseStyle.screaming value.enumName = CaseStyle.screaming other.enumName ∧
      value.name = other.name ∨ Overlaps value other ∨ Overlaps other value)

theorem constant_eq_iff_clash {params : Params} {value other : EnumValue}
    (hne : value.enumName = other.enumName → value.name ≠ other.name)
    (hblock : params.enumStyle = .shell → value.enumName = other.enumName) :
    constant params value = constant params other ↔ Clash params.enumStyle value other := by
  have hseparator : "_".toList = ['_'] := by decide
  unfold constant Clash
  cases hstyle : params.enumStyle with
  | shell => exact escape_eq_escape_iff (hne (hblock hstyle))
  | flat =>
    dsimp only
    rw [hseparator, List.append_assoc, List.append_assoc, List.singleton_append,
      List.singleton_append, append_cons_eq_append_cons_iff]
    refine ⟨fun h => ⟨fun henum => ?_, h⟩, And.right⟩
    -- Words do not overlap with themselves.
    rw [henum] at h
    rcases h with ⟨-, hname⟩ | ⟨words, hwords, -⟩ | ⟨words, hwords, -⟩
    · exact hne henum hname
    · simp at hwords
    · simp at hwords

end Names

namespace Scope

variable {params : Params} {scope : Scope}

/-- Constants of a scope have the same name exactly where two of its values clash. -/
structure TellsApart (params : Params) (scope : Scope) : Prop where
  one_each : ((scope.declarations params).map Constants.Declaration.name).Perm
    (scope.values.map (Names.constant params))
  same_iff : scope.values.Pairwise fun value other =>
    Names.constant params value = Names.constant params other ↔
      Names.Clash params.enumStyle value other
  distinct_iff : ((scope.declarations params).map Constants.Declaration.name).Nodup ↔
    scope.values.Pairwise fun value other => ¬ Names.Clash params.enumStyle value other

theorem tellsApart_of_pairwise
    (hvalues : scope.values.Pairwise fun value other =>
      (value.enumName = other.enumName → value.name ≠ other.name) ∧
      (params.enumStyle = .shell → value.enumName = other.enumName)) :
    scope.TellsApart params := by
  have hone := scope.map_name_declarations_perm params
  have hsame := hvalues.imp fun h => Names.constant_eq_iff_clash h.1 h.2
  refine ⟨hone, hsame, ?_⟩
  rw [hone.nodup_iff, List.Nodup, List.pairwise_map]
  exact ⟨fun h => (h.and hsame).imp fun h => mt h.2.2 h.1,
    fun h => (h.and hsame).imp fun h => mt h.2.1 h.1⟩

end Scope

namespace Pool

variable {params : Params} {pool : Pool}

theorem pairwise_name_ne {enum : EnumType} (h : (enum.values.map EnumValue.name).Nodup) :
    enum.values.Pairwise fun value other => value.name ≠ other.name :=
  List.pairwise_map.1 h

/-- Values of one scope have different names, or are of different enumerations. -/
theorem pairwise_values_of_mem_scopes (henums : (pool.enums.map EnumType.name).Nodup)
    (hplace : ∀ enum ∈ pool.enums, enum.InPlace)
    (hnames : ∀ enum ∈ pool.enums, (enum.values.map EnumValue.name).Nodup) {scope : Scope}
    (hscope : scope ∈ pool.scopes params) :
    scope.values.Pairwise fun value other =>
      (value.enumName = other.enumName → value.name ≠ other.name) ∧
      (params.enumStyle = .shell → value.enumName = other.enumName) := by
  unfold scopes at hscope
  cases hstyle : params.enumStyle with
  | shell =>
    rw [hstyle] at hscope
    obtain ⟨enum, henum, rfl⟩ := List.mem_map.1 hscope
    rw [Scope.values, List.flatMap_singleton]
    refine (pairwise_name_ne (hnames enum henum)).imp_of_mem fun hvalue hother hne =>
      ⟨fun _ => hne, fun _ => ?_⟩
    rw [(hplace enum henum).enumName_of_mem hvalue, (hplace enum henum).enumName_of_mem hother]
  | flat =>
    rw [hstyle] at hscope
    obtain rfl := List.mem_singleton.1 hscope
    rw [Scope.values, List.pairwise_flatMap]
    constructor
    · exact fun enum henum => (pairwise_name_ne (hnames enum henum)).imp fun hne =>
        ⟨fun _ => hne, fun hshell => by cases hshell⟩
    · refine (List.pairwise_map.1 henums).imp_of_mem fun {enum other} henum hother hne => ?_
      intro value hvalue value' hvalue'
      rw [(hplace enum henum).enumName_of_mem hvalue,
        (hplace other hother).enumName_of_mem hvalue']
      exact ⟨fun hsame => absurd hsame hne, fun hshell => by cases hshell⟩

/-- Where values of one enumeration have names of their own, the constants of a scope have too, but
for values that clash. -/
theorem scopes_tell_apart (package : Text) (additions : List Addition) (params : Params)
    (hnames : ∀ enum ∈ (ofAdditions package additions).enums,
      (enum.values.map EnumValue.name).Nodup) :
    Module.text params (ofAdditions package additions) =
        .ok (Module.sourceText params (ofAdditions package additions)) ∧
      ∀ scope ∈ (ofAdditions package additions).scopes params, scope.TellsApart params := by
  have hcollects := collects_ofAdditions package additions
  refine ⟨Module.text_eq params _, fun scope hscope => Scope.tellsApart_of_pairwise ?_⟩
  exact pairwise_values_of_mem_scopes hcollects.names_distinct hcollects.inPlace hnames hscope

/-- The words of the second enumeration begin with those of the first one. -/
def overlappingEnums : List Addition := [
  .enum { name := "Foo", values := [{ name := "BAR_X", number := 0 }] },
  .enum { name := "FooBar", values := [{ name := "X", number := 1 }] }]

/-- A keyword, and a name that is spelled as the keyword is escaped. -/
def escapedTwins : List Addition := [
  .enum { name := "Level", values := [{ name := "self", number := 0 },
    { name := "self_", number := 1 }] }]

/-- Names of their own for values are not enough, in either style. -/
theorem constants_share_names :
    ((∀ enum ∈ (ofAdditions "shop" overlappingEnums).enums,
        (enum.values.map EnumValue.name).Nodup) ∧
      ∃ scope ∈ (ofAdditions "shop" overlappingEnums).scopes { enumStyle := .flat },
        ¬ ((scope.declarations { enumStyle := .flat }).map Constants.Declaration.name).Nodup) ∧
    (∀ enum ∈ (ofAdditions "shop" escapedTwins).enums, (enum.values.map EnumValue.name).Nodup) ∧
      ∃ scope ∈ (ofAdditions "shop" escapedTwins).scopes { enumStyle := .shell },
        ¬ ((scope.declarations { enumStyle := .shell }).map Constants.Declaration.name).Nodup := by
  decide +kernel

/-- Enumerations that share the name of a value. -/
def sharedNames : List Addition := [
  .enum { name := "Color", values := [{ name := "UNKNOWN", number := 0 },
    { name := "RED", number := 1 }] },
  .enum { name := "ShirtSize", values := [{ name := "UNKNOWN", number := 0 },
    { name := "NONE", number := 0 }] }]

theorem scopes_tell_apart_sharedNames :
    (∀ enum ∈ (ofAdditions "shop" sharedNames).enums, (enum.values.map EnumValue.name).Nodup) ∧
      ∀ scope ∈ (ofAdditions "shop" sharedNames).scopes { enumStyle := .flat },
        scope.TellsApart { enumStyle := .flat } :=
  have hnames : ∀ enum ∈ (ofAdditions "shop" sharedNames).enums,
      (enum.values.map EnumValue.name).Nodup := by decide +kernel
  ⟨hnames, (scopes_tell_apart "shop" sharedNames { enumStyle := .flat } hnames).2⟩

end Pool
end EnumWire
