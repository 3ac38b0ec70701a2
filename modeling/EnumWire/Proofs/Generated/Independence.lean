import EnumWire.Proofs.Generated.Module

/-! # Definitions print apart from each other

The text of a module is its opening lines and then, in order, the texts that its enumerations and
its messages have when each of them is printed by itself. So what surrounds a definition does not
depend on it: it may be changed, left out or joined by others. -/
namespace EnumWire.Module

/-- The texts of some enumerations, each from a printer of its own. -/
def enumTexts (params : Params) (enums : List EnumType) : Except TemplateError (List Text) :=
  enums.mapM fun enum => (Constants.script params enum).text

/-- The texts of some messages, each from a printer of its own. -/
def messageTexts (params : Params) (messages : List Message) : Except TemplateError (List Text) :=
  messages.mapM fun message => (message.script params).text

/-- The lines that open a module; the runtime is named where messages follow. -/
def opening (params : Params) (package : Text) (withMessages : Bool) : Text :=
  Text.lines [
    "// Generated by nano-gen from package `" ++ package ++ "`. Do not edit.",
    "#![allow(dead_code, non_upper_case_globals, unused_mut, clippy::identity_op)]",
    ""] ++
  if withMessages then Text.lines ["use " ++ params.runtimeCrate ++ " as nano;", ""] else []

/-- The text of a module consists of the texts of its definitions. -/
structure Independent (params : Params) (pool : Pool) : Prop where
  text_eq : ∃ enums messages, enumTexts params pool.enums = .ok enums ∧
    messageTexts params pool.messages = .ok messages ∧
    text params pool = .ok (
      opening params pool.package (emitsMessages params pool) ++ enums.flatten ++
      if emitsMessages params pool then messages.flatten else [])
  /-- Whatever enumerations stand between others, the text around them is the same. -/
  around_enums (before after : List EnumType) : ∃ above below, ∀ enums, ∃ texts,
    enumTexts params enums = .ok texts ∧
    text params { pool with enums := before ++ enums ++ after } =
      .ok (above ++ texts.flatten ++ below)
  /-- The same holds of messages, as long as there is one. -/
  around_messages (before after : List Message) : ∃ above below, ∀ messages,
    before ++ messages ++ after ≠ [] → ∃ texts, messageTexts params messages = .ok texts ∧
    text params { pool with messages := before ++ messages ++ after } =
      .ok (above ++ (if params.emitMessages then texts.flatten else []) ++ below)

variable (params : Params) (pool : Pool)

/-- The text of an enumeration. -/
def enumSource (enum : EnumType) : Text :=
  Constants.enclosedText params enum
    (Text.lines ((Constants.declarations params enum).map Constants.Declaration.line))

def messageSource (message : Message) : Text := (message.source params).text

theorem mapM_text_eq {α : Type} {script : α → Script} {source : α → Text}
    (h : ∀ item, (script item).PrintsLines (source item)) (items : List α) :
    items.mapM (fun item => (script item).text) = .ok (items.map source) := by
  rw [Traversal.mapM_eq_ok_iff, List.forall₂_map_right_iff, List.forall₂_same]
  exact fun item _ => (h item).text_eq

theorem enumTexts_eq (enums : List EnumType) :
    enumTexts params enums = .ok (enums.map (enumSource params)) :=
  mapM_text_eq (Constants.printsLines_script params) enums

theorem messageTexts_eq (messages : List Message) :
    messageTexts params messages = .ok (messages.map (messageSource params)) :=
  mapM_text_eq (fun message => message.printsLines_script params) messages

theorem text_eq_flatten :
    text params pool = .ok (
      opening params pool.package (emitsMessages params pool) ++
      (pool.enums.map (enumSource params)).flatten ++
      if emitsMessages params pool then
        (pool.messages.map (messageSource params)).flatten
      else []) := by
  rw [text_eq, sourceText, flatMap_text_scopes]
  rfl

theorem exists_around_enums (before after : List EnumType) : ∃ above below, ∀ enums, ∃ texts,
    enumTexts params enums = .ok texts ∧
    text params { pool with enums := before ++ enums ++ after } =
      .ok (above ++ texts.flatten ++ below) := by
  refine ⟨opening params pool.package (emitsMessages params pool) ++
      (before.map (enumSource params)).flatten,
    (after.map (enumSource params)).flatten ++
      if emitsMessages params pool then
        (pool.messages.map (messageSource params)).flatten
      else [],
    fun enums => ⟨_, enumTexts_eq params enums, ?_⟩⟩
  rw [text_eq_flatten]
  simp only [List.map_append, List.flatten_append, List.append_assoc]
  rfl

theorem emitsMessages_of_ne_nil {messages : List Message} (h : messages ≠ []) :
    emitsMessages params { pool with messages := messages } = params.emitMessages := by
  simp [emitsMessages, h]

theorem exists_around_messages (before after : List Message) : ∃ above below, ∀ messages,
    before ++ messages ++ after ≠ [] → ∃ texts, messageTexts params messages = .ok texts ∧
    text params { pool with messages := before ++ messages ++ after } =
      .ok (above ++ (if params.emitMessages then texts.flatten else []) ++ below) := by
  -- Only whether there is a message counts for the opening lines, not which one.
  cases hemit : params.emitMessages with
  | false =>
    refine ⟨opening params pool.package false ++ (pool.enums.map (enumSource params)).flatten, [],
      fun messages hne => ⟨_, messageTexts_eq params messages, ?_⟩⟩
    rw [text_eq_flatten, emitsMessages_of_ne_nil params pool hne, hemit, List.append_nil]
    rfl
  | true =>
    refine ⟨opening params pool.package true ++ (pool.enums.map (enumSource params)).flatten ++
        (before.map (messageSource params)).flatten,
      (after.map (messageSource params)).flatten,
      fun messages hne => ⟨_, messageTexts_eq params messages, ?_⟩⟩
    rw [text_eq_flatten, emitsMessages_of_ne_nil params pool hne, hemit]
    simp only [if_true, List.map_append, List.flatten_append, List.append_assoc]

/-- No definition has a part in the text of another one, whatever the names are. -/
theorem definitions_independent : Independent params pool where
  text_eq := ⟨_, _, enumTexts_eq params pool.enums, messageTexts_eq params pool.messages,
    text_eq_flatten params pool⟩
  around_enums := exists_around_enums params pool
  around_messages := exists_around_messages params pool

end EnumWire.Module
