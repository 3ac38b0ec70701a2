import EnumWire.Proofs.Generated.Constants
import EnumWire.Proofs.Generated.FieldSource
import EnumWire.Report.Fragments

/-! # Reports and generated source

A report is built apart from the generators, with a style switch of its own for aliases. It still
says what they write. -/
namespace EnumWire.Report

/-! ### Constants -/

theorem constants_ofEnum (params : Params) (enum : EnumType) :
    (ofEnum params enum).constants = Constants.declarations params enum := by
  change constants params (Partition.ofEnum enum) = _
  unfold constants Constants.declarations Constants.aliasDeclaration Constants.siblingRef
    Names.constantRef
  cases params.enumStyle <;> rfl

theorem printsLines_body (report : EnumReport) :
    report.body.PrintsLines (Text.lines (report.constants.map Constants.Declaration.line)) := by
  rw [EnumReport.body, Text.lines_map]
  exact .flatMap fun declaration _ =>
    Script.printsLines_raw (Printer.endsLine_lines [declaration.line])

/-- Between the lines that open and close an enumeration, the constants of the report give the text
of the generator. -/
def EnumReport.Describes (params : Params) (enum : EnumType) (report : EnumReport) : Prop :=
  ∃ source, (Constants.script params enum).text = .ok source ∧
    (Constants.enclosed params enum report.body).text = .ok source

theorem ofEnum_describes (params : Params) (enum : EnumType) :
    EnumReport.Describes params enum (ofEnum params enum) := by
  have hreport : (Constants.enclosed params enum (ofEnum params enum).body).PrintsLines _ :=
    Constants.printsLines_enclosed (printsLines_body (ofEnum params enum))
  rw [constants_ofEnum] at hreport
  exact ⟨_, (Constants.printsLines_script params enum).text_eq, hreport.text_eq⟩

/-! ### Fragments of a field -/

section

variable (params : Params) (field : Field)

theorem kind_ofField : (ofField params field).kind = field.kind := by
  change kindOf field = field.kind
  unfold kindOf Field.isPacked Field.isRepeated Field.kind
  cases field.label <;> cases field.packed <;> rfl

theorem initialization_ofField :
    (ofField params field).initialization = (field.initial params).text := by
  unfold FieldReport.initialization Field.initial
  rw [kind_ofField]
  cases field.kind <;> rfl

theorem presence_ofField : (ofField params field).presence = (field.accessor params).text := by
  have hname : "pub fn has_".toList = "pub fn ".toList ++ "has_".toList := by decide
  unfold FieldReport.presence
  rw [hname, List.append_assoc]
  rfl

theorem serialization_ofField :
    (ofField params field).serialization = (field.writing params).text := by
  unfold FieldReport.serialization Field.writing
  rw [kind_ofField]
  cases field.kind <;> rfl

theorem size_ofField : (ofField params field).size = (field.sizing params).text := by
  unfold FieldReport.size Field.sizing
  rw [kind_ofField]
  cases field.kind <;> rfl

theorem members_ofField :
    (ofField params field).members field.messageName (FieldReport.storage field.kind) =
      field.member.text := by
  unfold FieldReport.storage MessageSource.Member.text Field.member
  cases field.kind <;> rfl

theorem printsLines_members :
    (field.members params).PrintsLines
      ((ofField params field).members field.messageName (FieldReport.storage field.kind)) := by
  rw [members_ofField]
  exact field.printsLines_members params

theorem printsLines_presence :
    (Message.presenceScript params field).PrintsLines (ofField params field).presence := by
  rw [presence_ofField]
  exact field.printsLines_presence params

theorem printsLines_cacheMembers :
    (field.cacheMembers params).PrintsLines
      (if field.kind = .packed then (ofField params field).cacheMember else []) := by
  unfold Field.cacheMembers Field.hasSizeCache
  by_cases hpacked : field.kind = .packed
  · rw [if_pos hpacked, if_pos (decide_eq_true hpacked)]
    exact field.printsLines_cacheMember params
  · rw [if_neg hpacked, if_neg (by simpa using hpacked)]
    exact Script.printsLines_nil

/-! ### Storage -/

theorem storage_eq_plain_iff (kind : FieldKind) :
    FieldReport.storage kind = "i32" ↔ kind = .singular := by
  cases kind <;> decide

theorem storage_eq_vec_iff (kind : FieldKind) :
    FieldReport.storage kind = "Vec<i32>" ↔ kind ≠ .singular := by
  cases kind <;> decide

theorem printsLines_members_iff (type : Text) :
    (field.members params).PrintsLines ((ofField params field).members field.messageName type) ↔
      FieldReport.storage field.kind = type := by
  have hmembers := printsLines_members params field
  refine ⟨fun h => ?_, fun h => h ▸ hmembers⟩
  simpa [FieldReport.members, Text.lines_cons] using hmembers.eq h

theorem printsLines_cacheMember_iff :
    (field.cacheMembers params).PrintsLines (ofField params field).cacheMember ↔
      field.kind = .packed := by
  have hcache := printsLines_cacheMembers params field
  constructor
  · intro h
    by_contra hkind
    rw [if_neg hkind] at hcache
    simpa [FieldReport.cacheMember, Text.lines_cons] using h.eq hcache
  · intro hkind
    rwa [if_pos hkind] at hcache

theorem printsLines_no_cacheMember_iff :
    (field.cacheMembers params).PrintsLines [] ↔ field.kind ≠ .packed := by
  have hcache := printsLines_cacheMembers params field
  constructor
  · intro h hkind
    rw [if_pos hkind] at hcache
    simpa [FieldReport.cacheMember, Text.lines_cons] using h.eq hcache
  · intro hkind
    rwa [if_neg hkind] at hcache

end

/-! ### Reports -/

/-- What the generators write for a field follows from what the report says of it. -/
structure FieldReport.Describes (params : Params) (field : Field) (report : FieldReport) :
    Prop where
  parseTag : report.tag = field.declaredArm.tag
  arm : ∃ body, (field.parsing params).PrintsLines body ∧
    (Message.armScript params field field.declaredArm).PrintsLines (report.arm body)
  serialization : (field.serialization params).PrintsLines report.serialization
  size : (field.size params).PrintsLines report.size
  initialization : (field.initialization params).PrintsLines report.initialization
  presence : (Message.presenceScript params field).PrintsLines report.presence
  singular_iff : report.kind = .singular ↔
    (field.members params).PrintsLines (report.members field.messageName "i32")
  repeated_iff : report.kind = .repeated ↔
    (field.members params).PrintsLines (report.members field.messageName "Vec<i32>") ∧
      (field.cacheMembers params).PrintsLines []
  packed_iff : report.kind = .packed ↔
    (field.cacheMembers params).PrintsLines report.cacheMember

theorem ofField_describes (params : Params) (field : Field) :
    FieldReport.Describes params field (ofField params field) where
  parseTag := rfl
  arm := ⟨_, field.printsLines_intake params field.declaredArm,
    field.printsLines_armScript params field.declaredArm⟩
  serialization := by
    rw [serialization_ofField]
    exact field.printsLines_serialization params
  size := by
    rw [size_ofField]
    exact field.printsLines_size params
  initialization := by
    rw [initialization_ofField]
    exact field.printsLines_initialization params
  presence := printsLines_presence params field
  singular_iff := by
    rw [kind_ofField, printsLines_members_iff, storage_eq_plain_iff]
  repeated_iff := by
    rw [kind_ofField, printsLines_members_iff, storage_eq_vec_iff,
      printsLines_no_cacheMember_iff]
    cases field.kind <;> decide
  packed_iff := by
    rw [kind_ofField, printsLines_cacheMember_iff]

/-- Presence is compared for the singular fields, and for no others. -/
structure MessageReport.Describes (params : Params) (message : Message) (report : MessageReport) :
    Prop where
  fields : List.Forall₂ (FieldReport.Describes params) message.fields report.fields
  presence : (message.presenceAccessors params).PrintsLines
    ((report.fields.filter fun field => field.kind = .singular).flatMap FieldReport.presence)

theorem ofMessage_describes (params : Params) (message : Message) :
    MessageReport.Describes params message (ofMessage params message) where
  fields := by
    rw [ofMessage, List.forall₂_map_right_iff, List.forall₂_same]
    exact fun field _ => ofField_describes params field
  presence := by
    have hfilter :
        (ofMessage params message).fields.filter (fun report => report.kind = .singular) =
          (message.fields.filter fun field => field.kind = .singular).map (ofField params) := by
      rw [ofMessage, List.filter_map]
      simp only [Function.comp_def, kind_ofField]
    rw [hfilter, List.flatMap_map]
    exact .flatMap fun field _ => printsLines_presence params field

/-- A report on a package says of each enumeration and of each field what the generators write. -/
structure PackageReport.Describes (params : Params) (pool : Pool) (report : PackageReport) :
    Prop where
  enums : List.Forall₂ (EnumReport.Describes params) pool.enums report.enums
  messages : List.Forall₂ (MessageReport.Describes params) pool.messages report.messages

theorem ofPool_describes (params : Params) (pool : Pool) :
    PackageReport.Describes params pool (ofPool params pool) where
  enums := by
    rw [ofPool, List.forall₂_map_right_iff, List.forall₂_same]
    exact fun enum _ => ofEnum_describes params enum
  messages := by
    rw [ofPool, List.forall₂_map_right_iff, List.forall₂_same]
    exact fun message _ => ofMessage_describes params message

end EnumWire.Report
