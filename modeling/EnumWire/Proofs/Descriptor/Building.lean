import EnumWire.Descriptor.Building
import EnumWire.Proofs.Descriptor.Resolution

/-! # What additions leave in a pool

However enumerations and messages are added, and whichever messages fail, a pool has one enumeration
under each name: the last one added, in the place of the first. A message is linked to what the pool
has at that moment, or leaves the pool as it was, and nothing that comes later touches it. So the
messages of a pool are those that were linked, in the order of their additions. -/
namespace EnumWire

variable {package : Text} {additions : List Addition} {pool next : Pool}

/-! ### Enumerations in their places -/

namespace Pool

/-- The enumerations of other names stay as they are, in their order. -/
theorem filter_insertEnum (enum : EnumType) (enums : List EnumType) :
    (insertEnum enum enums).filter (fun other => other.name ≠ enum.name) =
      enums.filter fun other => other.name ≠ enum.name := by
  induction enums with
  | nil => simp [insertEnum]
  | cons other rest ih =>
    rw [insertEnum]
    by_cases hname : other.name = enum.name
    · rw [if_pos hname, List.filter_cons_of_neg (by simp), List.filter_cons_of_neg (by simpa)]
    · rw [if_neg hname, List.filter_cons_of_pos (by simpa), List.filter_cons_of_pos (by simpa), ih]

theorem enums_foldl_addEnum (pool : Pool) (definitions : List EnumDef) :
    (definitions.foldl addEnum pool).enums =
      definitions.foldl (fun enums definition => insertEnum (.ofDef definition) enums)
        pool.enums := by
  induction definitions generalizing pool with
  | nil => rfl
  | cons definition rest ih => exact ih (pool.addEnum definition)

end Pool

namespace Building

/-! ### One addition -/

section

variable {α β : Type} {first : Building α} {more : α → Building β}

theorem run_bind_of_ok {value : α} (h : first.run pool = (.ok value, next)) :
    run (first >>= more) pool = (more value).run next := by
  change ExceptT.bindCont more (first.run pool).1 (first.run pool).2 = _
  rw [h]
  rfl

theorem run_bind_of_error {error : ResolveError} (h : first.run pool = (.error error, next)) :
    run (first >>= more) pool = (.error error, next) := by
  change ExceptT.bindCont more (first.run pool).1 (first.run pool).2 = _
  rw [h]
  rfl

end

theorem run_resolveField (message : Text) (definition : FieldDef) (pool : Pool) :
    (resolveField message definition).run pool = (pool.resolveField message definition, pool) := by
  have hget : run get pool = (.ok pool, pool) := rfl
  rw [resolveField, run_bind_of_ok hget]
  cases pool.resolveField message definition <;> rfl

/-- The fields only read the pool. -/
theorem run_resolveFields (message : Text) (definitions : List FieldDef) (pool : Pool) :
    run (definitions.mapM (resolveField message)) pool =
      (definitions.mapM (pool.resolveField message), pool) := by
  induction definitions with
  | nil => rfl
  | cons definition rest ih =>
    have hfirst := run_resolveField message definition pool
    rw [List.mapM_cons, List.mapM_cons]
    cases hfield : pool.resolveField message definition with
    | error error =>
      rw [hfield] at hfirst
      exact run_bind_of_error hfirst
    | ok field =>
      rw [hfield] at hfirst
      rw [run_bind_of_ok hfirst]
      cases hfields : rest.mapM (pool.resolveField message) with
      | error error =>
        rw [hfields] at ih
        exact run_bind_of_error ih
      | ok fields =>
        rw [hfields] at ih
        exact run_bind_of_ok ih

theorem run_add_enum (definition : EnumDef) (pool : Pool) :
    (add (.enum definition)).run pool = (.ok (), pool.addEnum definition) := rfl

theorem run_add_message_of_ok {definition : MessageDef}
    (h : pool.addMessage definition = .ok next) :
    (add (.message definition)).run pool = (.ok (), next) := by
  obtain ⟨message, hmessage, rfl⟩ := Traversal.map_eq_ok_iff.1 h
  obtain ⟨fields, hfields, rfl⟩ := Traversal.map_eq_ok_iff.1 hmessage
  have hrun := run_resolveFields definition.name definition.fields pool
  rw [hfields] at hrun
  rw [add, run_bind_of_ok hrun]
  rfl

theorem run_add_message_of_error {definition : MessageDef} {error : ResolveError}
    (h : pool.addMessage definition = .error error) :
    (add (.message definition)).run pool = (.error error, pool) := by
  have hfields := Traversal.map_eq_error_iff.1 (Traversal.map_eq_error_iff.1 h)
  have hrun := run_resolveFields definition.name definition.fields pool
  rw [hfields] at hrun
  rw [add, run_bind_of_error hrun]

/-! ### Runs of additions -/

theorem addAll_append (pool : Pool) (additions more : List Addition) :
    addAll pool (additions ++ more) = addAll (addAll pool additions) more :=
  List.foldl_append

/-- A message never changes an enumeration, nor what a package is called. -/
theorem run_add_message_frame (definition : MessageDef) (pool : Pool) :
    ((add (.message definition)).run pool).2.enums = pool.enums ∧
    ((add (.message definition)).run pool).2.package = pool.package ∧
    pool.messages <+: ((add (.message definition)).run pool).2.messages := by
  cases h : pool.addMessage definition with
  | error error =>
    rw [run_add_message_of_error h]
    exact ⟨rfl, rfl, List.prefix_refl _⟩
  | ok next =>
    rw [run_add_message_of_ok h]
    obtain ⟨message, -, rfl⟩ := Traversal.map_eq_ok_iff.1 h
    exact ⟨rfl, rfl, List.prefix_append _ _⟩

theorem enums_addAll (pool : Pool) (additions : List Addition) :
    (addAll pool additions).enums = ((Addition.enums additions).foldl Pool.addEnum pool).enums := by
  induction additions generalizing pool with
  | nil => rfl
  | cons addition rest ih =>
    cases addition with
    | enum definition => exact ih (pool.addEnum definition)
    | message definition =>
      refine (ih _).trans ?_
      rw [Pool.enums_foldl_addEnum, (run_add_message_frame definition pool).1,
        ← Pool.enums_foldl_addEnum]
      rfl

theorem package_addAll (pool : Pool) (additions : List Addition) :
    (addAll pool additions).package = pool.package := by
  induction additions generalizing pool with
  | nil => rfl
  | cons addition rest ih =>
    refine (ih _).trans ?_
    cases addition with
    | enum definition => rfl
    | message definition => exact (run_add_message_frame definition pool).2.1

theorem messages_prefix_addAll (pool : Pool) (additions : List Addition) :
    pool.messages <+: (addAll pool additions).messages := by
  induction additions generalizing pool with
  | nil => exact List.prefix_refl _
  | cons addition rest ih =>
    cases addition with
    | enum definition => exact ih (pool.addEnum definition)
    | message definition => exact (run_add_message_frame definition pool).2.2.trans (ih _)

end Building

/-! ### What a pool has collected -/

/-- The schema that the enumerations among some additions make up. -/
def Addition.schema (package : Text) (additions : List Addition) : SchemaFile :=
  { package := package, enums := enums additions }

namespace Pool

theorem enums_ofAdditions (package : Text) (additions : List Addition) :
    (ofAdditions package additions).enums = (ofEnums (Addition.schema package additions)).enums :=
  Building.enums_addAll { package := package } additions

theorem holds_ofAdditions (package : Text) (additions : List Addition) :
    (ofAdditions package additions).Holds (Addition.schema package additions) := by
  intro name
  rw [← holds_ofEnums, findEnum?, enums_ofAdditions, findEnum?]

theorem nodup_names_ofAdditions (package : Text) (additions : List Addition) :
    ((ofAdditions package additions).enums.map EnumType.name).Nodup := by
  rw [enums_ofAdditions]
  exact nodup_names_ofEnums _

/-! ### The messages of a run -/

/-- What comes of adding a message to a pool with the enumerations of a schema. -/
inductive Takes (schema : SchemaFile) (definition : MessageDef) (pool : Pool) :
    Except ResolveError Unit × Pool → Prop where
  | linked (message : Message) (links : ∀ field ∈ definition.fields, schema.Links field)
    (resolves : definition.ResolvesTo pool.enums message) :
    Takes schema definition pool (.ok (), { pool with messages := pool.messages ++ [message] })
  | refused (error : ResolveError)
    (flaw : definition.fields.findSome? (schema.flaw? definition.name) = some error) :
    Takes schema definition pool (.error error, pool)

theorem takes_add_message {schema : SchemaFile} (h : pool.Holds schema) (definition : MessageDef) :
    pool.Takes schema definition ((Building.add (.message definition)).run pool) := by
  cases hadd : pool.addMessage definition with
  | error error =>
    rw [Building.run_add_message_of_error hadd]
    exact .refused error ((resolveMessage_eq_error_iff h).1 (Traversal.map_eq_error_iff.1 hadd))
  | ok next =>
    rw [Building.run_add_message_of_ok hadd]
    obtain ⟨message, hmessage, rfl⟩ := Traversal.map_eq_ok_iff.1 hadd
    refine .linked message (fun field hfield => ?_) (resolvesTo_of_resolveMessage h hmessage)
    have hflaw : definition.fields.findSome? (schema.flaw? definition.name) = none := by
      rw [Option.eq_none_iff_forall_ne_some]
      intro error herror
      rw [← resolveMessage_eq_error_iff h, hmessage] at herror
      cases herror
    exact SchemaFile.flaw?_eq_none_iff.1 (List.findSome?_eq_none_iff.1 hflaw field hfield)

theorem ofAdditions_concat (package : Text) (before : List Addition) (addition : Addition) :
    ofAdditions package (before ++ [addition]) =
      ((Building.add addition).run (ofAdditions package before)).2 :=
  Building.addAll_append _ before [addition]

end Pool

/-- The messages that some additions leave: one for each addition whose fields all link, resolved
against the enumerations of that moment. -/
inductive Addition.Leaves (package : Text) : List Addition → List Message → Prop where
  | nil : Leaves package [] []
  | enum {before messages} (definition : EnumDef) (leaves : Leaves package before messages) :
    Leaves package (before ++ [.enum definition]) messages
  | linked {before messages} {definition : MessageDef} (message : Message)
    (leaves : Leaves package before messages)
    (links : ∀ field ∈ definition.fields, (schema package before).Links field)
    (resolves : definition.ResolvesTo (Pool.ofAdditions package before).enums message) :
    Leaves package (before ++ [.message definition]) (messages ++ [message])
  | refused {before messages} {definition : MessageDef} (error : ResolveError)
    (leaves : Leaves package before messages)
    (flaw : definition.fields.findSome? ((schema package before).flaw? definition.name) =
      some error) :
    Leaves package (before ++ [.message definition]) messages

namespace Pool

theorem leaves_ofAdditions (package : Text) (additions : List Addition) :
    Addition.Leaves package additions (ofAdditions package additions).messages := by
  induction additions using List.reverseRecOn with
  | nil => exact .nil
  | append_singleton before addition ih =>
    rw [ofAdditions_concat]
    cases addition with
    | enum definition => exact .enum definition ih
    | message definition =>
      have htakes := takes_add_message (holds_ofAdditions package before) definition
      generalize (Building.add (.message definition)).run (ofAdditions package before) = outcome
        at htakes ⊢
      cases htakes with
      | linked message links resolves => exact .linked message ih links resolves
      | refused error flaw => exact .refused error ih flaw

/-! ### Any run -/

/-- What a pool has after enumerations and messages were added to it. -/
structure Collects (package : Text) (additions : List Addition) (pool : Pool) : Prop where
  names_distinct : (pool.enums.map EnumType.name).Nodup
  names_in_order : pool.enums.map EnumType.name =
    ((Addition.enums additions).map EnumDef.name).eraseDups
  finds_last : ∀ name, pool.findEnum? name =
    ((Addition.enums additions).reverse.find? fun definition => definition.name = name).map
      EnumType.ofDef
  finds_each : ∀ enum ∈ pool.enums, pool.findEnum? enum.name = some enum
  declared : ∀ enum ∈ pool.enums, ∃ definition,
    (Addition.schema package additions).lastEnum? enum.name = some definition ∧
      definition.ResolvesTo enum
  inPlace : ∀ enum ∈ pool.enums, enum.InPlace
  messages : Addition.Leaves package additions pool.messages
  package : pool.package = package

theorem collects_ofAdditions (package : Text) (additions : List Addition) :
    (ofAdditions package additions).Collects package additions := by
  have hholds := holds_ofAdditions package additions
  have hnames := nodup_names_ofAdditions package additions
  exact {
    names_distinct := hnames
    names_in_order := by
      rw [enums_ofAdditions]
      exact map_name_foldl_addEnum package _
    finds_last := hholds
    finds_each := fun _ => findEnum?_of_mem hnames
    declared := fun _ => hholds.declared hnames
    inPlace := fun _ hmem =>
      have ⟨_, _, hresolves⟩ := hholds.declared hnames hmem
      hresolves.inPlace
    messages := leaves_ofAdditions package additions
    package := Building.package_addAll _ additions }

/-- All but the enumeration of one name is left as it was. -/
structure Spares (name : Text) (pool next : Pool) : Prop where
  messages : next.messages = pool.messages
  enums : next.enums.filter (fun enum => enum.name ≠ name) =
    pool.enums.filter fun enum => enum.name ≠ name

theorem spares_addEnum (pool : Pool) (definition : EnumDef) :
    pool.Spares definition.name (pool.addEnum definition) :=
  ⟨rfl, filter_insertEnum (.ofDef definition) pool.enums⟩

/-- After additions in any order, a pool has the last enumeration of each name in the place of the
first, and the messages that were linked, in their order. One more enumeration spares everything
else; one more message is linked to these enumerations, or has a flaw and leaves the pool as it was;
and messages stay for good. -/
theorem ofAdditions_collects (package : Text) (additions : List Addition) :
    let pool := ofAdditions package additions
    pool.Collects package additions ∧
    (∀ definition, ∃ next, (Building.add (.enum definition)).run pool = (.ok (), next) ∧
      pool.Spares definition.name next) ∧
    (∀ definition, pool.Takes (Addition.schema package additions) definition
      ((Building.add (.message definition)).run pool)) ∧
    ∀ more, pool.messages <+: (ofAdditions package (additions ++ more)).messages := by
  refine ⟨collects_ofAdditions package additions, fun definition => ?_, fun definition => ?_,
    fun more => ?_⟩
  · exact ⟨_, Building.run_add_enum definition _, spares_addEnum _ definition⟩
  · exact takes_add_message (holds_ofAdditions package additions) definition
  · rw [ofAdditions, ofAdditions, Building.addAll_append]
    exact Building.messages_prefix_addAll _ more

/-- An enumeration is added again after a message has been linked to it, and another message fails. -/
example : ofAdditions "shop" [
    .enum { name := "Size", values := [{ name := "SMALL", number := 0 }] },
    .message { name := "Shirt", fields := [{ name := "size", number := 1, typeName := "Size" }] },
    .enum { name := "Size", values := [{ name := "LARGE", number := 9 }] },
    .message { name := "Hat", fields := [{ name := "color", number := 1, typeName := "Color" }] }] =
  { package := "shop"
    enums := [{ name := "Size", values := [⟨"LARGE", 9, 0, "Size"⟩] }]
    messages := [{ name := "Shirt", fields := [{
      name := "size", number := 1, label := .optional, packed := false, enumName := "Size",
      defaultValue := ⟨"SMALL", 0, 0, "Size"⟩, messageName := "Shirt" }] }] } := by
  decide +kernel

end Pool
end EnumWire
