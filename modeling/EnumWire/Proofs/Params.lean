import EnumWire.Params
import EnumWire.Proofs.Text.Blank
import EnumWire.Proofs.Text.Pieces
import EnumWire.Proofs.Traversal

/-! # What parameters say

A parameter text is read from left to right. Each of its pairs sets one parameter, whatever stands
before it, and the first one that does not is the error. Of several pairs for one parameter the last
one counts. -/
namespace EnumWire.Params

/-- A parameter with its value. -/
inductive Setting where
  | enumStyle (style : EnumStyle)
  | runtimeCrate (name : Text)
  | emitMessages (emits : Bool)
  deriving DecidableEq

/-- The keys of all parameters. -/
def keys : List Text := ["enum_style", "runtime_crate", "emit_messages"]

namespace Setting

def key : Setting → Text
  | .enumStyle _ => "enum_style"
  | .runtimeCrate _ => "runtime_crate"
  | .emitMessages _ => "emit_messages"

def value : Setting → Text
  | .enumStyle style => style.name
  | .runtimeCrate name => name
  | .emitMessages emits => if emits then "true" else "false"

def enumStyle? : Setting → Option EnumStyle
  | .enumStyle style => some style
  | _ => none

def runtimeCrate? : Setting → Option Text
  | .runtimeCrate name => some name
  | _ => none

def emitMessages? : Setting → Option Bool
  | .emitMessages emits => some emits
  | _ => none

def applyTo (params : Params) : Setting → Params
  | .enumStyle style => { params with enumStyle := style }
  | .runtimeCrate name => { params with runtimeCrate := name }
  | .emitMessages emits => { params with emitMessages := emits }

/-- A setting is written as its key and its value, and no value is empty. -/
structure IsWritten (setting : Setting) (key value : Text) : Prop where
  key_eq : setting.key = key
  value_eq : setting.value = value
  ne_nil : value ≠ []

end Setting

/-- A key before the first equals sign and a value after it, with blanks around both. -/
def IsPair (pair key value : Text) : Prop :=
  ∃ before after, pair = before ++ '=' :: after ∧ '=' ∉ before ∧ Text.Trims before key ∧
    Text.Trims after value

/-- The pair sets a parameter. -/
def Reads (pair : Text) (setting : Setting) : Prop :=
  ∃ key value, IsPair pair key value ∧ setting.IsWritten key value

/-- Why a pair sets no parameter. -/
inductive Offends (pair : Text) : ParamError → Prop
  | missingValue (h : '=' ∉ pair) : Offends pair (.missingValue pair)
  | unknownKey {key value : Text} (hpair : IsPair pair key value) (hkey : key ∉ keys) :
    Offends pair (.unknownKey key)
  | invalidValue {key value : Text} (hpair : IsPair pair key value) (hkey : key ∈ keys)
    (hvalue : ∀ setting : Setting, ¬ setting.IsWritten key value) :
    Offends pair (.invalidValue key value)

/-- Pieces without the blanks around them; blank ones are left out. -/
inductive Separates : (pieces pairs : List Text) → Prop
  | nil : Separates [] []
  | blank {piece : Text} {pieces pairs : List Text} (hpiece : Text.IsBlank piece)
    (h : Separates pieces pairs) : Separates (piece :: pieces) pairs
  | pair {piece pair : Text} {pieces pairs : List Text} (hpiece : Text.Trims piece pair)
    (hne : pair ≠ []) (h : Separates pieces pairs) : Separates (piece :: pieces) (pair :: pairs)

/-- The last setting of each parameter, and its default where there is none. -/
def ofSettings (settings : List Setting) : Params where
  enumStyle := (settings.filterMap Setting.enumStyle?).getLastD .shell
  runtimeCrate := (settings.filterMap Setting.runtimeCrate?).getLastD "nano_runtime"
  emitMessages := (settings.filterMap Setting.emitMessages?).getLastD true

/-- A text that a pair may hold and that is read as it is. -/
structure IsPlain (t : Text) : Prop where
  ne_nil : t ≠ []
  comma : ',' ∉ t
  trimmed : t.IsTrimmed

instance (t : Text) : Decidable (IsPlain t) :=
  decidable_of_iff (t ≠ [] ∧ ',' ∉ t ∧ t.IsTrimmed)
    ⟨fun ⟨hne, hcomma, htrimmed⟩ => ⟨hne, hcomma, htrimmed⟩,
      fun ⟨hne, hcomma, htrimmed⟩ => ⟨hne, hcomma, htrimmed⟩⟩

/-- Every parameter with its value. -/
def settings (params : Params) : List Setting :=
  [.enumStyle params.enumStyle, .runtimeCrate params.runtimeCrate, .emitMessages params.emitMessages]

/-- Pieces that spell settings out, one after the other, with blanks around keys and values and with
blank pieces anywhere. -/
inductive Spells : (settings : List Setting) → (pieces : List Text) → Prop
  | nil : Spells [] []
  | blank {settings : List Setting} {piece : Text} {pieces : List Text}
    (hpiece : Text.IsBlank piece) (h : Spells settings pieces) : Spells settings (piece :: pieces)
  | pair {setting : Setting} {settings : List Setting} {a b c d : Text} {pieces : List Text}
    (ha : Text.IsBlank a) (hb : Text.IsBlank b) (hc : Text.IsBlank c) (hd : Text.IsBlank d)
    (h : Spells settings pieces) :
    Spells (setting :: settings)
      ((a ++ (setting.key ++ b ++ '=' :: c ++ setting.value) ++ d) :: pieces)

/-! ### One pair -/

section Pair

variable {pair key value : Text} {params next : Params} {setting : Setting} {error : ParamError}

theorem isPair_iff : IsPair pair key value ↔ ∃ before after,
    Text.splitFirst '=' pair = some (before, after) ∧ Text.trim before = key ∧
      Text.trim after = value := by
  simp only [IsPair, Text.splitFirst_eq_some_iff, Text.trim_eq_iff, and_assoc]

theorem mem_keys_iff :
    key ∈ keys ↔ key = "enum_style" ∨ key = "runtime_crate" ∨ key = "emit_messages" := by
  simp only [keys, List.mem_cons, List.not_mem_nil, or_false]

theorem key_mem_keys (setting : Setting) : setting.key ∈ keys := by
  cases setting with
  | enumStyle style => exact mem_keys_iff.2 (.inl rfl)
  | runtimeCrate name => exact mem_keys_iff.2 (.inr (.inl rfl))
  | emitMessages emits => exact mem_keys_iff.2 (.inr (.inr rfl))

theorem assign_key_value (params : Params) (h : setting.value ≠ []) :
    params.assign setting.key setting.value = .ok (setting.applyTo params) := by
  cases setting with
  | enumStyle style => cases style <;> rfl
  | runtimeCrate name => exact if_neg h
  | emitMessages emits => cases emits <;> rfl

theorem assign_eq_ok_iff : params.assign key value = .ok next ↔
    ∃ setting : Setting, setting.IsWritten key value ∧ next = setting.applyTo params := by
  constructor
  · intro h
    unfold assign at h
    split_ifs at h with hstyle hshell hflat hcrate hempty hemits htrue hfalse <;> cases h
    · exact ⟨.enumStyle .shell, ⟨hstyle.symm, hshell.symm, by simp [hshell]⟩, rfl⟩
    · exact ⟨.enumStyle .flat, ⟨hstyle.symm, hflat.symm, by simp [hflat]⟩, rfl⟩
    · exact ⟨.runtimeCrate value, ⟨hcrate.symm, rfl, hempty⟩, rfl⟩
    · exact ⟨.emitMessages true, ⟨hemits.symm, htrue.symm, by simp [htrue]⟩, rfl⟩
    · exact ⟨.emitMessages false, ⟨hemits.symm, hfalse.symm, by simp [hfalse]⟩, rfl⟩
  · rintro ⟨setting, ⟨rfl, rfl, hne⟩, rfl⟩
    exact assign_key_value params hne

/-- A key that is known has a wrong value. -/
theorem error_of_assign (h : params.assign key value = .error error) :
    key ∉ keys ∧ error = .unknownKey key ∨ key ∈ keys ∧ error = .invalidValue key value := by
  unfold assign at h
  split_ifs at h with hstyle hshell hflat hcrate hempty hemits htrue hfalse <;> cases h
  · exact .inr ⟨mem_keys_iff.2 (.inl hstyle), rfl⟩
  · exact .inr ⟨mem_keys_iff.2 (.inr (.inl hcrate)), rfl⟩
  · exact .inr ⟨mem_keys_iff.2 (.inr (.inr hemits)), rfl⟩
  · refine .inl ⟨?_, rfl⟩
    rw [mem_keys_iff, not_or, not_or]
    exact ⟨hstyle, hcrate, hemits⟩

theorem assign_eq_error_iff : params.assign key value = .error error ↔
    key ∉ keys ∧ error = .unknownKey key ∨
      key ∈ keys ∧ (∀ setting : Setting, ¬ setting.IsWritten key value) ∧
        error = .invalidValue key value := by
  cases hresult : params.assign key value with
  | ok next =>
    obtain ⟨setting, hwritten, -⟩ := assign_eq_ok_iff.1 hresult
    have hknown : key ∈ keys := hwritten.key_eq ▸ key_mem_keys setting
    constructor
    · rintro ⟨⟩
    · rintro (⟨hunknown, -⟩ | ⟨-, hunwritten, -⟩)
      · exact absurd hknown hunknown
      · exact absurd hwritten (hunwritten setting)
  | error failure =>
    have hunwritten (setting : Setting) : ¬ setting.IsWritten key value := by
      intro hwritten
      cases hresult.symm.trans (assign_eq_ok_iff.2 ⟨setting, hwritten, rfl⟩)
    rw [Except.error.injEq]
    rcases error_of_assign hresult with ⟨hunknown, rfl⟩ | ⟨hknown, rfl⟩
    · simp only [hunknown, not_false_eq_true, true_and, false_and, or_false, eq_comm]
    · simp only [hknown, hunwritten, not_true_eq_false, false_and, not_false_eq_true, implies_true,
        true_and, false_or, eq_comm]

theorem assignPair_eq_ok_iff (params : Params) (pair : Text) (next : Params) :
    params.assignPair pair = .ok next ↔
      ∃ setting, Reads pair setting ∧ next = setting.applyTo params := by
  unfold assignPair Reads
  simp only [isPair_iff]
  cases Text.splitFirst '=' pair with
  | none => simp
  | some parts =>
    rw [assign_eq_ok_iff]
    constructor
    · rintro ⟨setting, hwritten, rfl⟩
      exact ⟨setting, ⟨_, _, ⟨_, _, rfl, rfl, rfl⟩, hwritten⟩, rfl⟩
    · rintro ⟨setting, ⟨_, _, ⟨_, _, hparts, rfl, rfl⟩, hwritten⟩, rfl⟩
      cases hparts
      exact ⟨setting, hwritten, rfl⟩

theorem assignPair_eq_error_iff (params : Params) (pair : Text) (error : ParamError) :
    params.assignPair pair = .error error ↔ Offends pair error := by
  unfold assignPair
  cases hsplit : Text.splitFirst '=' pair with
  | none =>
    have hmem := Text.splitFirst_eq_none_iff.1 hsplit
    have hpair (key value : Text) : ¬ IsPair pair key value := by
      rw [isPair_iff, hsplit]
      exact nofun
    constructor
    · rintro ⟨⟩
      exact .missingValue hmem
    · rintro (_ | ⟨h, -⟩ | ⟨h, -⟩)
      · rfl
      · exact absurd h (hpair _ _)
      · exact absurd h (hpair _ _)
  | some parts =>
    obtain ⟨before, after⟩ := parts
    have hpair {key value : Text} : IsPair pair key value ↔
        Text.trim before = key ∧ Text.trim after = value := by
      rw [isPair_iff, hsplit]
      simp
    refine assign_eq_error_iff.trans ⟨?_, ?_⟩
    · rintro (⟨hunknown, rfl⟩ | ⟨hknown, hunwritten, rfl⟩)
      · exact .unknownKey (hpair.2 ⟨rfl, rfl⟩) hunknown
      · exact .invalidValue (hpair.2 ⟨rfl, rfl⟩) hknown hunwritten
    · rintro (h | ⟨h, hunknown⟩ | ⟨h, hknown, hunwritten⟩)
      · exact nomatch (Text.splitFirst_eq_none_iff.2 h).symm.trans hsplit
      · obtain ⟨rfl, rfl⟩ := hpair.1 h
        exact .inl ⟨hunknown, rfl⟩
      · obtain ⟨rfl, rfl⟩ := hpair.1 h
        exact .inr ⟨hknown, hunwritten, rfl⟩

end Pair

/-! ### All pairs -/

theorem separates_trimmed (pieces : List Text) :
    Separates pieces ((pieces.map Text.trim).filter fun pair => pair ≠ []) := by
  induction pieces with
  | nil => exact .nil
  | cons piece pieces ih =>
    rw [List.map_cons, List.filter_cons]
    by_cases hblank : Text.trim piece = []
    · rw [if_neg (by simpa using hblank)]
      exact .blank (Text.trim_eq_nil_iff.1 hblank) ih
    · rw [if_pos (by simpa using hblank)]
      exact .pair (Text.trims_trim piece) hblank ih

theorem foldl_applyTo (settings : List Setting) (params : Params) :
    settings.foldl Setting.applyTo params =
      { enumStyle := (settings.filterMap Setting.enumStyle?).getLastD params.enumStyle
        runtimeCrate := (settings.filterMap Setting.runtimeCrate?).getLastD params.runtimeCrate
        emitMessages := (settings.filterMap Setting.emitMessages?).getLastD params.emitMessages } := by
  induction settings generalizing params with
  | nil => rfl
  | cons setting settings ih =>
    rw [List.foldl_cons, ih]
    cases setting <;> simp only [List.filterMap_cons, Setting.enumStyle?, Setting.runtimeCrate?,
      Setting.emitMessages?, List.getLastD_cons, Setting.applyTo]

theorem ofSettings_eq (settings : List Setting) :
    settings.foldl Setting.applyTo {} = ofSettings settings :=
  foldl_applyTo settings {}

/-! ### Settings that are spelled out -/

variable {params : Params} {setting : Setting} {pieces : List Text}

theorem isPlain_key (setting : Setting) : IsPlain setting.key ∧ '=' ∉ setting.key := by
  have hkeys : ∀ key ∈ keys, IsPlain key ∧ '=' ∉ key := by decide +kernel
  exact hkeys _ (key_mem_keys setting)

theorem isPlain_value (hcrate : IsPlain params.runtimeCrate) (h : setting ∈ params.settings) :
    IsPlain setting.value := by
  simp only [settings, List.mem_cons, List.not_mem_nil, or_false] at h
  rcases h with rfl | rfl | rfl
  · rw [Setting.value]
    cases params.enumStyle <;> decide +kernel
  · exact hcrate
  · rw [Setting.value]
    cases params.emitMessages <;> decide +kernel

/-- Settings with plain values are read back from what spells them. -/
theorem Spells.reads {settings : List Setting} (h : Spells settings pieces)
    (hplain : ∀ setting ∈ settings, IsPlain setting.value) :
    List.Forall₂ Reads ((pieces.map Text.trim).filter fun pair => pair ≠ []) settings := by
  induction h with
  | nil => exact .nil
  | blank hpiece _ ih =>
    rw [List.map_cons, Text.trim_of_isBlank hpiece, List.filter_cons_of_neg (by simp)]
    exact ih hplain
  | @pair setting settings a b c d pieces ha hb hc hd _ ih =>
    rw [List.forall_mem_cons] at hplain
    obtain ⟨hkey, hequals⟩ := isPlain_key setting
    have htrims : Text.Trims (a ++ (setting.key ++ b ++ '=' :: c ++ setting.value) ++ d)
        (setting.key ++ b ++ '=' :: c ++ setting.value) := by
      refine ⟨⟨a, d, rfl, ha, hd⟩, ?_⟩
      rw [List.append_assoc setting.key]
      exact Text.isTrimmed_append hkey.trimmed hkey.ne_nil _ hplain.1.trimmed hplain.1.ne_nil
    have hreads : Reads (setting.key ++ b ++ '=' :: c ++ setting.value) setting := by
      refine ⟨setting.key, setting.value, ⟨setting.key ++ b, c ++ setting.value, ?_, ?_, ?_, ?_⟩,
        rfl, rfl, hplain.1.ne_nil⟩
      · rw [List.append_assoc _ ('=' :: c), List.cons_append]
      · rw [List.mem_append, not_or]
        exact ⟨hequals, Text.not_mem_of_isBlank hb (by decide)⟩
      · exact ⟨⟨[], b, rfl, nofun, hb⟩, hkey.trimmed⟩
      · exact ⟨⟨c, [], (List.append_nil _).symm, hc, nofun⟩, hplain.1.trimmed⟩
    rw [List.map_cons, htrims.trim_eq, List.filter_cons_of_pos (by simp)]
    exact .cons hreads (ih hplain.2)

theorem Spells.comma_not_mem {settings : List Setting} (h : Spells settings pieces)
    (hplain : ∀ setting ∈ settings, IsPlain setting.value) : ∀ piece ∈ pieces, ',' ∉ piece := by
  have hblank {t : Text} (ht : t.IsBlank) : ',' ∉ t := Text.not_mem_of_isBlank ht (by decide)
  induction h with
  | nil => exact nofun
  | blank hpiece _ ih => exact List.forall_mem_cons.2 ⟨hblank hpiece, ih hplain⟩
  | @pair setting settings a b c d pieces ha hb hc hd _ ih =>
    rw [List.forall_mem_cons] at hplain ⊢
    refine ⟨?_, ih hplain.2⟩
    simp only [List.mem_append, List.mem_cons, not_or]
    exact ⟨⟨hblank ha, ⟨⟨(isPlain_key setting).1.comma, hblank hb⟩, by decide, hblank hc⟩,
      hplain.1.comma⟩, hblank hd⟩

theorem Spells.ne_nil {settings : List Setting} (h : Spells settings pieces)
    (hne : settings ≠ []) : pieces ≠ [] := by
  cases h with
  | nil => exact absurd rfl hne
  | blank => exact List.cons_ne_nil _ _
  | pair => exact List.cons_ne_nil _ _

/-- The order of settings of different parameters does not matter. -/
theorem ofSettings_of_perm {order : List Setting} (h : order.Perm params.settings) :
    ofSettings order = params := by
  have hstyle := List.perm_singleton.1 (h.filterMap Setting.enumStyle?)
  have hcrate := List.perm_singleton.1 (h.filterMap Setting.runtimeCrate?)
  have hemits := List.perm_singleton.1 (h.filterMap Setting.emitMessages?)
  rw [ofSettings, hstyle, hcrate, hemits]
  rfl

/-! ### Parsing -/

theorem parse_eq_ok_iff (text : Text) (params : Params) : parse text = .ok params ↔
    ∃ settings, List.Forall₂ Reads (pairs text) settings ∧ params = ofSettings settings := by
  simp only [parse, Traversal.foldlM_eq_ok_iff assignPair_eq_ok_iff, ofSettings_eq]

theorem parse_eq_error_iff (text : Text) (error : ParamError) : parse text = .error error ↔
    ∃ before pair after, pairs text = before ++ pair :: after ∧
      (∀ other ∈ before, ∃ setting, Reads other setting) ∧ Offends pair error :=
  Traversal.foldlM_eq_error_iff assignPair_eq_ok_iff assignPair_eq_error_iff

theorem parse_spelled {order : List Setting} (hcrate : IsPlain params.runtimeCrate)
    (horder : order.Perm params.settings) (h : Spells order pieces) :
    parse ([','].intercalate pieces) = .ok params := by
  have hplain : ∀ setting ∈ order, IsPlain setting.value := fun setting hmem =>
    isPlain_value hcrate (horder.mem_iff.1 hmem)
  have hne : order ≠ [] := fun hnil => by
    rw [hnil] at horder
    exact absurd horder.length_eq (by simp [settings])
  refine (parse_eq_ok_iff _ _).2 ⟨order, ?_, (ofSettings_of_perm horder).symm⟩
  rw [pairs, Text.split_intercalate (h.ne_nil hne) (h.comma_not_mem hplain)]
  exact h.reads hplain

/-- A parameter text is accepted exactly if each of its pairs sets a parameter, and what spells the
parameters out gives them back. -/
theorem parse_reads_settings :
    (∀ text, Separates (Text.split ',' text) (pairs text) ∧
      (∀ params, parse text = .ok params ↔
        ∃ settings, List.Forall₂ Reads (pairs text) settings ∧ params = ofSettings settings) ∧
      ∀ error, parse text = .error error ↔
        ∃ before pair after, pairs text = before ++ pair :: after ∧
          (∀ other ∈ before, ∃ setting, Reads other setting) ∧ Offends pair error) ∧
    ∀ (params : Params) (order : List Setting) (pieces : List Text),
      IsPlain params.runtimeCrate → order.Perm params.settings → Spells order pieces →
      parse ([','].intercalate pieces) = .ok params := by
  refine ⟨fun text => ⟨separates_trimmed _, parse_eq_ok_iff text, parse_eq_error_iff text⟩, ?_⟩
  intro params order pieces hcrate horder h
  exact parse_spelled hcrate horder h

/-- Blanks of any kind, empty pairs, and a value with an equals sign in it. -/
def paddedPieces : List Text :=
  ["\t", " emit_messages =\u00a0false", "", "enum_style=flat\n", "runtime_crate = crate::a=b "]

def paddedOrder : List Setting :=
  [.emitMessages false, .enumStyle .flat, .runtimeCrate "crate::a=b"]

theorem parse_reads_settings_padded :
    IsPlain "crate::a=b" ∧ paddedOrder.Perm (settings ⟨.flat, "crate::a=b", false⟩) ∧
    Spells paddedOrder paddedPieces ∧
    parse ([','].intercalate paddedPieces) = .ok ⟨.flat, "crate::a=b", false⟩ := by
  have hcrate : IsPlain "crate::a=b" := by decide +kernel
  have horder : paddedOrder.Perm (settings ⟨.flat, "crate::a=b", false⟩) := by
    rw [List.perm_iff_count]
    intro setting
    simp only [paddedOrder, settings, List.count_cons, List.count_nil]
    omega
  have hspells : Spells paddedOrder paddedPieces := by
    refine .blank (by decide +kernel) (.pair (a := " ") (b := " ") (c := "\u00a0") (d := "") ?_ ?_ ?_ ?_ ?_)
    iterate 4 decide +kernel
    refine .blank (by decide +kernel) (.pair (a := "") (b := "") (c := "") (d := "\n") ?_ ?_ ?_ ?_ ?_)
    iterate 4 decide +kernel
    refine .pair (a := "") (b := " ") (c := " ") (d := " ") ?_ ?_ ?_ ?_ .nil
    iterate 4 decide +kernel
  exact ⟨hcrate, horder, hspells, parse_reads_settings.2 _ _ _ hcrate horder hspells⟩

end EnumWire.Params
