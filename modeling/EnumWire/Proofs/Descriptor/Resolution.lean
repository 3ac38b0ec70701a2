import EnumWire.Descriptor.Pool
import EnumWire.Proofs.Descriptor.Positions
import EnumWire.Proofs.Traversal
import Mathlib.Data.List.Induction
import Mathlib.Data.List.Nodup

/-! # Resolving a schema

A schema resolves when every field finds its enumeration, in the last definition of its name, and in
that definition a value to default to. What it resolves to has the enumerations under their names in
the order in which these first occur, each with the values of its last definition, and the messages
as they were written. -/
namespace EnumWire

/-! ### What fields must find -/

namespace SchemaFile

variable {file : SchemaFile} {message : Text} {field : FieldDef}

/-- The definition that counts under a name: the last one. -/
def lastEnum? (file : SchemaFile) (name : Text) : Option EnumDef :=
  file.enums.reverse.find? fun definition => definition.name = name

/-- A field finds its enumeration, and there the value that it names or any value at all. -/
def Links (file : SchemaFile) (field : FieldDef) : Prop :=
  ∃ definition, file.lastEnum? field.typeName = some definition ∧
    match field.defaultName with
    | some name => ∃ value ∈ definition.values, value.name = name
    | none => definition.values ≠ []

/-- What is wrong with a field of a message; a default matters only where there is an enumeration. -/
def flaw? (file : SchemaFile) (message : Text) (field : FieldDef) : Option ResolveError :=
  match file.lastEnum? field.typeName with
  | none => some (.unknownEnum message field.name field.typeName)
  | some definition =>
    match field.defaultName with
    | some name =>
      if ∃ value ∈ definition.values, value.name = name then none
      else some (.unknownDefault message field.name name field.typeName)
    | none =>
      if definition.values = [] then some (.emptyEnum message field.name field.typeName) else none

/-- The flaw of the first field that has one, message by message. -/
def firstFlaw? (file : SchemaFile) : Option ResolveError :=
  file.messages.findSome? fun message => message.fields.findSome? (file.flaw? message.name)

theorem name_of_lastEnum? {name : Text} {definition : EnumDef}
    (h : file.lastEnum? name = some definition) : definition.name = name := by
  simpa using List.find?_some h

theorem flaw?_eq_none_iff : file.flaw? message field = none ↔ file.Links field := by
  unfold flaw? Links
  cases file.lastEnum? field.typeName with
  | none => simp
  | some definition =>
    cases field.defaultName with
    | none => simp
    | some name => simp

theorem firstFlaw?_eq_none_iff :
    file.firstFlaw? = none ↔
      ∀ message ∈ file.messages, ∀ field ∈ message.fields, file.Links field := by
  rw [firstFlaw?, List.findSome?_eq_none_iff]
  refine forall₂_congr fun message _ => ?_
  rw [List.findSome?_eq_none_iff]
  exact forall₂_congr fun field _ => flaw?_eq_none_iff

end SchemaFile

/-! ### What they resolve to -/

/-- The first value of the name that the field gives, or the first value of all. -/
def FieldDef.DefaultsTo (field : FieldDef) (enum : EnumType) (value : EnumValue) : Prop :=
  enum.values[value.index]? = some value ∧
    match field.defaultName with
    | some name =>
      value.name = name ∧ ∀ other ∈ enum.values, other.name = name → value.index ≤ other.index
    | none => value.index = 0

structure FieldDef.ResolvesTo (enums : List EnumType) (message : Text) (definition : FieldDef)
    (field : Field) : Prop where
  name : field.name = definition.name
  number : field.number = definition.number
  label : field.label = definition.label
  packed : field.packed = definition.packed
  enumName : field.enumName = definition.typeName
  messageName : field.messageName = message
  default : ∃ enum ∈ enums, enum.name = definition.typeName ∧
    definition.DefaultsTo enum field.defaultValue

structure MessageDef.ResolvesTo (enums : List EnumType) (definition : MessageDef)
    (message : Message) : Prop where
  name : message.name = definition.name
  fields : List.Forall₂ (FieldDef.ResolvesTo enums definition.name) definition.fields message.fields

structure SchemaFile.ResolvesTo (file : SchemaFile) (pool : Pool) : Prop where
  package : pool.package = file.package
  enumNames : pool.enums.map EnumType.name = (file.enums.map EnumDef.name).eraseDups
  enums : ∀ enum ∈ pool.enums, (file.lastEnum? enum.name).map EnumType.ofDef = some enum
  declared : ∀ enum ∈ pool.enums, ∃ definition,
    file.lastEnum? enum.name = some definition ∧ definition.ResolvesTo enum
  messages : List.Forall₂ (MessageDef.ResolvesTo pool.enums) file.messages pool.messages

namespace Pool

variable {file : SchemaFile} {pool : Pool} {definitions : List EnumDef} {name : Text}

/-! ### Adding enumerations -/

theorem map_name_insertEnum (enum : EnumType) (enums : List EnumType) :
    (insertEnum enum enums).map EnumType.name =
      if enum.name ∈ enums.map EnumType.name then enums.map EnumType.name
      else enums.map EnumType.name ++ [enum.name] := by
  induction enums with
  | nil => rfl
  | cons other rest ih =>
    rw [insertEnum]
    by_cases hname : other.name = enum.name
    · rw [if_pos hname, List.map_cons, List.map_cons, hname, if_pos List.mem_cons_self]
    · rw [if_neg hname, List.map_cons, ih, List.map_cons]
      by_cases hrest : enum.name ∈ rest.map EnumType.name
      · rw [if_pos hrest, if_pos (List.mem_cons_of_mem _ hrest)]
      · rw [if_neg hrest, if_neg (by simpa [Ne.symm hname] using hrest), List.cons_append]

theorem find?_insertEnum (enum : EnumType) (enums : List EnumType) (name : Text) :
    (insertEnum enum enums).find? (fun other => other.name = name) =
      if enum.name = name then some enum else enums.find? fun other => other.name = name := by
  induction enums with
  | nil =>
    rw [insertEnum, List.find?_cons]
    by_cases h : enum.name = name <;> simp [h]
  | cons other rest ih =>
    rw [insertEnum]
    by_cases hname : other.name = enum.name
    · rw [if_pos hname, List.find?_cons, List.find?_cons, hname]
      by_cases h : enum.name = name <;> simp [h]
    · rw [if_neg hname, List.find?_cons, List.find?_cons, ih]
      by_cases h : enum.name = name
      · rw [if_pos h, if_pos h]
        simp [← h, hname]
      · rw [if_neg h, if_neg h]

theorem findEnum?_addEnum (pool : Pool) (definition : EnumDef) (name : Text) :
    (pool.addEnum definition).findEnum? name =
      if definition.name = name then some (EnumType.ofDef definition) else pool.findEnum? name :=
  find?_insertEnum (EnumType.ofDef definition) pool.enums name

theorem findEnum?_foldl_addEnum (pool : Pool) (definitions : List EnumDef) (name : Text) :
    (definitions.foldl addEnum pool).findEnum? name =
      ((definitions.reverse.find? fun definition => definition.name = name).map EnumType.ofDef).or
        (pool.findEnum? name) := by
  induction definitions generalizing pool with
  | nil => rfl
  | cons definition rest ih =>
    rw [List.foldl_cons, ih, List.reverse_cons, List.find?_append, findEnum?_addEnum]
    by_cases h : definition.name = name
    · cases rest.reverse.find? (fun definition => decide (definition.name = name)) <;> simp [h]
    · simp [h]

theorem map_name_addEnum (pool : Pool) (definition : EnumDef) :
    (pool.addEnum definition).enums.map EnumType.name =
      if definition.name ∈ pool.enums.map EnumType.name then pool.enums.map EnumType.name
      else pool.enums.map EnumType.name ++ [definition.name] :=
  map_name_insertEnum (EnumType.ofDef definition) pool.enums

/-- Only names that have not occurred before come behind the others. -/
theorem map_name_foldl_addEnum (package : Text) (definitions : List EnumDef) :
    (definitions.foldl addEnum { package := package }).enums.map EnumType.name =
      (definitions.map EnumDef.name).eraseDups := by
  induction definitions using List.reverseRecOn with
  | nil => rfl
  | append_singleton definitions definition ih =>
    rw [List.foldl_concat, map_name_addEnum, ih, List.map_append, List.eraseDups_append]
    by_cases h : definition.name ∈ definitions.map EnumDef.name
    · rw [if_pos (List.mem_eraseDups.2 h)]
      simp [List.removeAll, List.mem_map.1 h]
    · have hnew : [definition.name].removeAll (definitions.map EnumDef.name) = [definition.name] := by
        rw [List.removeAll, List.filter_cons_of_pos (by simpa using h), List.filter_nil]
      rw [if_neg (mt List.mem_eraseDups.1 h), List.map_singleton, hnew]
      rfl

theorem nodup_names_addEnum (pool : Pool) (definition : EnumDef)
    (h : (pool.enums.map EnumType.name).Nodup) :
    ((pool.addEnum definition).enums.map EnumType.name).Nodup := by
  rw [map_name_addEnum]
  split
  · exact h
  · rename_i hnew
    refine List.nodup_append.2 ⟨h, List.nodup_singleton _, fun name hname other hother heq => hnew ?_⟩
    rw [List.mem_singleton] at hother
    rwa [← hother, ← heq]

theorem nodup_names_foldl_addEnum (pool : Pool) (definitions : List EnumDef)
    (h : (pool.enums.map EnumType.name).Nodup) :
    ((definitions.foldl addEnum pool).enums.map EnumType.name).Nodup := by
  induction definitions generalizing pool with
  | nil => exact h
  | cons definition rest ih => exact ih _ (nodup_names_addEnum pool definition h)

theorem findEnum?_of_mem {enum : EnumType} (h : (pool.enums.map EnumType.name).Nodup)
    (hmem : enum ∈ pool.enums) : pool.findEnum? enum.name = some enum := by
  cases hfind : pool.findEnum? enum.name with
  | none =>
    have := List.find?_eq_none.1 hfind enum hmem
    simp at this
  | some other =>
    have hname : other.name = enum.name := by simpa using List.find?_some hfind
    rw [List.inj_on_of_nodup_map h (List.mem_of_find?_eq_some hfind) hmem hname]

theorem messages_foldl_addEnum (pool : Pool) (definitions : List EnumDef) :
    (definitions.foldl addEnum pool).messages = pool.messages := by
  induction definitions generalizing pool with
  | nil => rfl
  | cons definition rest ih => exact ih (pool.addEnum definition)

theorem package_foldl_addEnum (pool : Pool) (definitions : List EnumDef) :
    (definitions.foldl addEnum pool).package = pool.package := by
  induction definitions generalizing pool with
  | nil => rfl
  | cons definition rest ih => exact ih (pool.addEnum definition)

/-! ### Adding messages -/

theorem addMessage_eq (pool : Pool) (definition : MessageDef) :
    pool.addMessage definition =
      (pool.resolveMessage definition).map fun message =>
        { pool with messages := pool.messages ++ [message] } := rfl

/-- Messages do not depend on each other, since none of them changes an enumeration. -/
theorem foldlM_addMessage (pool : Pool) (definitions : List MessageDef) :
    definitions.foldlM addMessage pool =
      (definitions.mapM pool.resolveMessage).map fun messages =>
        { pool with messages := pool.messages ++ messages } := by
  induction definitions generalizing pool with
  | nil =>
    rw [List.foldlM_nil, List.mapM_nil]
    exact congrArg (fun messages => Except.ok { pool with messages := messages })
      (List.append_nil pool.messages).symm
  | cons definition rest ih =>
    rw [List.foldlM_cons, List.mapM_cons, addMessage_eq]
    cases pool.resolveMessage definition with
    | error error => rfl
    | ok message =>
      refine (ih { pool with messages := pool.messages ++ [message] }).trans ?_
      change Except.map _ (rest.mapM pool.resolveMessage) =
        Except.map _ ((rest.mapM pool.resolveMessage).bind fun messages => .ok (message :: messages))
      cases rest.mapM pool.resolveMessage with
      | error error => rfl
      | ok messages => simp [Except.map, Except.bind]

/-! ### What a pool finds -/

/-- The pool finds under each name the last definition of the file. -/
def Holds (pool : Pool) (file : SchemaFile) : Prop :=
  ∀ name, pool.findEnum? name = (file.lastEnum? name).map EnumType.ofDef

theorem Holds.declared (h : pool.Holds file) (hnames : (pool.enums.map EnumType.name).Nodup)
    {enum : EnumType} (hmem : enum ∈ pool.enums) :
    ∃ definition, file.lastEnum? enum.name = some definition ∧ definition.ResolvesTo enum := by
  have hfind := findEnum?_of_mem hnames hmem
  rw [h, Option.map_eq_some_iff] at hfind
  obtain ⟨definition, hlast, rfl⟩ := hfind
  exact ⟨definition, hlast, EnumDef.resolvesTo_ofDef definition⟩

/-! ### One field -/

theorem findName?_ofDef_eq_none_iff {definition : EnumDef} :
    (EnumType.ofDef definition).findName? name = none ↔
      ¬ ∃ value ∈ definition.values, value.name = name := by
  have hmem : name ∈ (EnumType.ofDef definition).values.map EnumValue.name ↔
      name ∈ definition.values.map EnumValueDef.name := by
    rw [(EnumDef.resolvesTo_ofDef definition).map_name]
  rw [List.mem_map, List.mem_map] at hmem
  rw [← hmem, EnumType.findName?, List.find?_eq_none]
  simp

theorem first?_ofDef_eq_none_iff {definition : EnumDef} :
    (EnumType.ofDef definition).first? = none ↔ definition.values = [] := by
  simp [EnumType.first?, EnumType.ofDef]

theorem resolveDefault_eq_error_iff {message : Text} {field : FieldDef} {definition : EnumDef}
    {error : ResolveError} (hlast : file.lastEnum? field.typeName = some definition) :
    resolveDefault message field (EnumType.ofDef definition) = .error error ↔
      file.flaw? message field = some error := by
  have hname : (EnumType.ofDef definition).name = field.typeName :=
    SchemaFile.name_of_lastEnum? hlast
  unfold resolveDefault SchemaFile.flaw?
  rw [hlast, hname]
  cases field.defaultName with
  | none =>
    cases hfirst : (EnumType.ofDef definition).first? with
    | none =>
      simp only [if_pos (first?_ofDef_eq_none_iff.1 hfirst), Except.error.injEq, Option.some_inj]
    | some value =>
      have hvalues : definition.values ≠ [] := fun hnil => by
        simp [first?_ofDef_eq_none_iff.2 hnil] at hfirst
      simp only [if_neg hvalues, reduceCtorEq]
  | some name =>
    cases hfound : (EnumType.ofDef definition).findName? name with
    | none =>
      have hvalues := findName?_ofDef_eq_none_iff.1 hfound
      simp only [if_neg hvalues, hfound, Except.error.injEq, Option.some_inj]
    | some value =>
      have hvalues : ∃ value ∈ definition.values, value.name = name := by
        by_contra hnot
        simp [findName?_ofDef_eq_none_iff.2 hnot] at hfound
      simp only [if_pos hvalues, reduceCtorEq, hfound]

theorem resolveField_eq_error_iff (h : pool.Holds file) {message : Text} {field : FieldDef}
    {error : ResolveError} :
    pool.resolveField message field = .error error ↔ file.flaw? message field = some error := by
  unfold resolveField
  rw [h field.typeName]
  cases hlast : file.lastEnum? field.typeName with
  | none => simp [SchemaFile.flaw?, hlast]
  | some definition =>
    rw [Option.map_some, ← resolveDefault_eq_error_iff hlast]
    exact Traversal.map_eq_error_iff

theorem defaultsTo_of_resolveDefault {message : Text} {field : FieldDef} {enum : EnumType}
    {value : EnumValue} (hindexed : enum.Indexed)
    (h : resolveDefault message field enum = .ok value) : field.DefaultsTo enum value := by
  unfold resolveDefault at h
  unfold FieldDef.DefaultsTo
  cases hdefault : field.defaultName with
  | none =>
    simp only [hdefault] at h
    split at h
    · rename_i first hfirst
      obtain rfl := Except.ok.inj h
      have hzero : enum.values[0]? = some first := List.head?_eq_getElem?.symm.trans hfirst
      exact ⟨hindexed.getElem?_index (List.mem_of_getElem? hzero), hindexed 0 first hzero⟩
    · cases h
  | some name =>
    simp only [hdefault] at h
    split at h
    · rename_i found hfound
      obtain rfl := Except.ok.inj h
      have hname : found.name = name := by simpa using List.find?_some hfound
      refine ⟨hindexed.getElem?_index (List.mem_of_find?_eq_some hfound), hname, ?_⟩
      intro other hother hsame
      exact hindexed.index_le_of_find? hfound hother (by simpa using hsame)
    · cases h

theorem resolvesTo_of_resolveField (h : pool.Holds file) {message : Text} {definition : FieldDef}
    {field : Field} (hfield : pool.resolveField message definition = .ok field) :
    definition.ResolvesTo pool.enums message field := by
  unfold resolveField at hfield
  split at hfield
  · cases hfield
  · rename_i enum hfind
    obtain ⟨value, hvalue, rfl⟩ := Traversal.map_eq_ok_iff.1 hfield
    have hname : enum.name = definition.typeName := by simpa using List.find?_some hfind
    obtain ⟨declared, -, rfl⟩ := Option.map_eq_some_iff.1 ((h _).symm.trans hfind)
    have hdefault := defaultsTo_of_resolveDefault (EnumType.indexed_ofDef declared) hvalue
    exact ⟨rfl, rfl, rfl, rfl, hname, rfl, _, List.mem_of_find?_eq_some hfind, hname, hdefault⟩

/-! ### All fields -/

theorem resolveMessage_eq_error_iff (h : pool.Holds file) {definition : MessageDef}
    {error : ResolveError} :
    pool.resolveMessage definition = .error error ↔
      definition.fields.findSome? (file.flaw? definition.name) = some error := by
  rw [resolveMessage, Traversal.map_eq_error_iff]
  exact Traversal.mapM_eq_error_iff fun field _ error => resolveField_eq_error_iff h

theorem resolvesTo_of_resolveMessage (h : pool.Holds file) {definition : MessageDef}
    {message : Message} (hmessage : pool.resolveMessage definition = .ok message) :
    definition.ResolvesTo pool.enums message := by
  obtain ⟨fields, hfields, rfl⟩ := Traversal.map_eq_ok_iff.1 hmessage
  exact ⟨rfl, (Traversal.mapM_eq_ok_iff.1 hfields).imp fun _ _ hfield =>
    resolvesTo_of_resolveField h hfield⟩

/-- The pool of a file before its messages are added. -/
def ofEnums (file : SchemaFile) : Pool := file.enums.foldl addEnum { package := file.package }

theorem holds_ofEnums (file : SchemaFile) : (ofEnums file).Holds file := by
  intro name
  rw [ofEnums, findEnum?_foldl_addEnum]
  exact Option.or_none

theorem nodup_names_ofEnums (file : SchemaFile) :
    ((ofEnums file).enums.map EnumType.name).Nodup :=
  nodup_names_foldl_addEnum _ _ List.nodup_nil

theorem ofSchema_eq (file : SchemaFile) :
    ofSchema file =
      (file.messages.mapM (ofEnums file).resolveMessage).map fun messages =>
        { ofEnums file with messages := messages } := by
  rw [ofSchema, foldlM_addMessage, messages_foldl_addEnum]
  rfl

theorem ofSchema_eq_error_iff (file : SchemaFile) (error : ResolveError) :
    ofSchema file = .error error ↔ file.firstFlaw? = some error := by
  rw [ofSchema_eq, Traversal.map_eq_error_iff]
  exact Traversal.mapM_eq_error_iff fun message _ error =>
    resolveMessage_eq_error_iff (holds_ofEnums file)

theorem resolvesTo_of_ofSchema (h : ofSchema file = .ok pool) : file.ResolvesTo pool := by
  rw [ofSchema_eq] at h
  obtain ⟨messages, hmessages, rfl⟩ := Traversal.map_eq_ok_iff.1 h
  exact {
    package := package_foldl_addEnum _ _
    enumNames := map_name_foldl_addEnum _ _
    enums := fun enum hmem => by
      rw [← holds_ofEnums file enum.name]
      exact findEnum?_of_mem (nodup_names_ofEnums file) hmem
    declared := fun _ => (holds_ofEnums file).declared (nodup_names_ofEnums file)
    messages := (Traversal.mapM_eq_ok_iff.1 hmessages).imp fun _ _ hmessage =>
      resolvesTo_of_resolveMessage (holds_ofEnums file) hmessage }

/-- A file resolves exactly when all of its fields link, and otherwise fails as the first field that
does not; what it resolves to keeps everything in order, down to the values of the enumerations. -/
theorem ofSchema_resolves (file : SchemaFile) :
    ((∃ pool, ofSchema file = .ok pool) ↔
      ∀ message ∈ file.messages, ∀ field ∈ message.fields, file.Links field) ∧
    (∀ error, ofSchema file = .error error ↔ file.firstFlaw? = some error) ∧
    (∀ pool, ofSchema file = .ok pool → file.ResolvesTo pool) := by
  have herror := ofSchema_eq_error_iff file
  refine ⟨?_, herror, fun pool => resolvesTo_of_ofSchema⟩
  rw [← SchemaFile.firstFlaw?_eq_none_iff, Option.eq_none_iff_forall_ne_some]
  simp only [ne_eq, ← herror]
  cases ofSchema file with
  | ok pool => simp
  | error error => simp

end Pool
end EnumWire
