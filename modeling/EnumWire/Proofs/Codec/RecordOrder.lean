import EnumWire.Proofs.Codec.RecordEffect

/-! # The order of records

Records of different fields do not meet: each slot goes through the records with its own tags, in
their order, and ends as it would without the others. So records may be moved past those of other
fields, and unknown ones may stand anywhere, also inside a run of elements. -/
namespace EnumWire.Wire

/-- The element that a record outside of a packed run holds. -/
def Record.elements (record : Record) : List Int32 :=
  match record.payload with
  | .varint bytes => [Varint.int32 bytes]
  | _ => []

end EnumWire.Wire

namespace EnumWire.Codec

open EnumWire.Wire

variable {record : Record} {records : List Record}

namespace Slot

variable {slot next : Slot}

/-- What a slot holds after records, one after the other. -/
def takeAll? (slot : Slot) (records : List Record) : Option Slot := records.foldlM take? slot

theorem takeAll?_cons (slot : Slot) (record : Record) (records : List Record) :
    slot.takeAll? (record :: records) = (slot.take? record).bind fun next => next.takeAll? records :=
  List.foldlM_cons

theorem takeAll?_filter_accepts (slot : Slot) (records : List Record) :
    slot.takeAll? (records.filter slot.accepts) = slot.takeAll? records := by
  induction records generalizing slot with
  | nil => rfl
  | cons record records ih =>
    cases haccepts : slot.accepts record with
    | false =>
      have hnot : ¬ slot.accepts record = true := Bool.eq_false_iff.mp haccepts
      rw [List.filter_cons_of_neg hnot, takeAll?_cons, take?_of_not_accepts haccepts, ih]
      rfl
    | true =>
      rw [List.filter_cons_of_pos haccepts, takeAll?_cons, takeAll?_cons]
      cases htake : slot.take? record with
      | none => rfl
      | some next =>
        rw [Option.bind_some, Option.bind_some, ← accepts_of_take? htake, ih]

/-- A singular field has the tag of a varint alone, a repeated field the tag of a run besides. -/
theorem accepts_iff (slot : Slot) (hfits : Tag.Fits slot.number)
    (hrecord : record.isWellFormed = true) :
    slot.accepts record = true ↔
      record.tag.fieldNumber = slot.number ∧
        (record.payload.wireType = .varint ∨
          slot.kind ≠ .singular ∧ record.payload.wireType = .lengthDelimited) := by
  obtain ⟨-, -, htype, -⟩ := record.isWellFormed_iff.mp hrecord
  have hmake (w : WireType) : Tag.make slot.number w = record.tag ↔
      record.tag.fieldNumber = slot.number ∧ record.payload.wireType = w := by
    constructor
    · intro h
      rw [← h, Tag.wireType?_make] at htype
      exact ⟨h ▸ Tag.fieldNumber_make hfits w, (Option.some.inj htype).symm⟩
    · rintro ⟨hnumber, rfl⟩
      exact hnumber ▸ Tag.make_fieldNumber htype
  cases slot with
  | singular n default value =>
    have hvarint := hmake .varint
    simpa [accepts, arms, kind, FieldKind.arms, FieldKind.declaredArm, FieldKind.alternateArm?,
      FieldKind.wireType] using hvarint
  | «repeated» n values =>
    have heither := or_congr (hmake .varint) (hmake .lengthDelimited)
    rw [← and_or_left] at heither
    simpa [accepts, arms, kind, FieldKind.arms, FieldKind.declaredArm, FieldKind.alternateArm?,
      FieldKind.wireType] using heither
  | packed n values =>
    have heither := or_congr (hmake .varint) (hmake .lengthDelimited)
    rw [← and_or_left, or_comm] at heither
    simpa [accepts, arms, kind, FieldKind.arms, FieldKind.declaredArm, FieldKind.alternateArm?,
      FieldKind.wireType] using heither

theorem elements_of_accepts (hkind : slot.kind ≠ .singular)
    (hrecord : record.isWellFormed = true) (haccepts : slot.accepts record = true)
    (htype : record.payload.wireType = .varint) :
    slot.take? record = some (slot.receive .elements record.elements) := by
  rw [accepts_eq_isSome] at haccepts
  obtain ⟨intake, htake⟩ := Option.isSome_iff_exists.mp haccepts
  obtain ⟨bytes, hvarint⟩ := Payload.eq_varint htype
  rw [take?_of_intake? htake, Record.elements, hvarint]
  cases intake with
  | value =>
    have hmem := mem_arms_of_intake? htake
    cases slot with
    | singular n default value => exact absurd rfl hkind
    | «repeated» n values =>
      simp [arms, kind, FieldKind.arms, FieldKind.declaredArm, FieldKind.alternateArm?] at hmem
    | packed n values =>
      simp [arms, kind, FieldKind.arms, FieldKind.declaredArm, FieldKind.alternateArm?] at hmem
  | elements => rfl
  | packedRun replaces =>
    have hrun := wireType_of_intake? hrecord htake
    rw [htype] at hrun
    cases hrun

/-- Elements with a tag each are appended, however they stand between other records. -/
theorem takeAll?_elements (hkind : slot.kind ≠ .singular)
    (hrecords : ∀ record ∈ records, record.isWellFormed = true)
    (haccepts : ∀ record ∈ records, slot.accepts record = true)
    (htypes : ∀ record ∈ records, record.payload.wireType = .varint) :
    slot.takeAll? records = some (slot.receive .elements (records.flatMap Record.elements)) := by
  induction records generalizing slot with
  | nil => rw [List.flatMap_nil, receive_elements_nil]; rfl
  | cons record records ih =>
    obtain ⟨hrecord, hrecords⟩ := List.forall_mem_cons.mp hrecords
    obtain ⟨haccept, haccepts⟩ := List.forall_mem_cons.mp haccepts
    obtain ⟨htype, htypes⟩ := List.forall_mem_cons.mp htypes
    have htake := elements_of_accepts hkind hrecord haccept htype
    have hnext : ∀ other ∈ records,
        (slot.receive .elements record.elements).accepts other = true := by
      rw [accepts_of_take? htake]
      exact haccepts
    obtain ⟨bytes, hvarint⟩ := Payload.eq_varint htype
    have helements : record.elements = [Varint.int32 bytes] := by rw [Record.elements, hvarint]
    rw [takeAll?_cons, htake, Option.bind_some, ih (by rwa [kind_receive]) hrecords hnext htypes,
      List.flatMap_cons, helements, receive_elements_cons, List.singleton_append]

end Slot

namespace Content

variable {content result : Content}

theorem take?_bind_mapM (content : Content) (record : Record) (next : Slot → Option Slot) :
    (content.take? record).bind (fun taken => taken.mapM next) =
      content.mapM fun slot => (slot.take? record).bind next := by
  induction content with
  | nil => rfl
  | cons slot content ih =>
    rw [take?] at ih ⊢
    rw [List.mapM_cons, List.mapM_cons, ← ih]
    cases slot.take? record with
    | none => rfl
    | some first =>
      cases content.mapM fun slot => slot.take? record with
      | none => simp
      | some others => simp [List.mapM_cons]

/-- Each slot goes through the records by itself. -/
theorem foldlM_take? (content : Content) (records : List Record) :
    records.foldlM take? content = content.mapM fun slot => slot.takeAll? records := by
  induction records generalizing content with
  | nil => exact (List.mapM_pure.trans (by simp)).symm
  | cons record records ih =>
    have hnext : (fun next : Content => records.foldlM take? next) =
        fun next => next.mapM fun slot => slot.takeAll? records := funext ih
    rw [List.foldlM_cons]
    change (content.take? record).bind _ = _
    rw [hnext, take?_bind_mapM]
    rfl

theorem mapM_congr_of_mem {f g : Slot → Option Slot} (h : ∀ slot ∈ content, f slot = g slot) :
    content.mapM f = content.mapM g := by
  induction content with
  | nil => rfl
  | cons slot content ih =>
    obtain ⟨hslot, hcontent⟩ := List.forall_mem_cons.mp h
    rw [List.mapM_cons, List.mapM_cons, hslot, ih hcontent]

theorem getElem?_of_mapM {f : Slot → Option Slot} (h : content.mapM f = some result) (i : Nat) :
    result[i]? = content[i]?.bind f := by
  induction content generalizing result i with
  | nil =>
    cases h
    rfl
  | cons slot content ih =>
    rw [List.mapM_cons] at h
    obtain ⟨first, hfirst, h⟩ := Option.bind_eq_some_iff.mp h
    obtain ⟨others, hothers, h⟩ := Option.bind_eq_some_iff.mp h
    cases h
    cases i with
    | zero => exact hfirst.symm
    | succ i => exact ih hothers i

/-- What the loop makes of records, one after the other. -/
def readRecords (content : Content) (records : List Record) : Outcome Content :=
  readInto content (Input.ofBytes (records.flatMap Record.bytes).toArray)

/-- The end of records, one after the other. -/
def endOf (records : List Record) : Input :=
  (Input.ofBytes (records.flatMap Record.bytes).toArray).advance
    (records.flatMap Record.bytes).length

/-- Records are read as each slot reads those with its tags. -/
theorem success?_readRecords (hnumbers : content.WellNumbered)
    (hrecords : ∀ record ∈ records, record.isWellFormed = true) :
    (readRecords content records).success? =
      (content.mapM fun slot : Slot => slot.takeAll? (records.filter slot.accepts)).map fun result =>
        (result, endOf records) := by
  have hs := Input.inBounds_ofBytes (records.flatMap Record.bytes).toArray
  have hpending := Input.pending_ofBytes (records.flatMap Record.bytes).toArray
  rw [readRecords, success?_readInto_records hs hnumbers hrecords hpending, foldlM_take?]
  simp only [Slot.takeAll?_filter_accepts, endOf]

theorem readRecords_eq_ok_iff (hnumbers : content.WellNumbered)
    (hrecords : ∀ record ∈ records, record.isWellFormed = true) (t : Input) :
    readRecords content records = (.ok result, t) ↔
      (content.mapM fun slot : Slot => slot.takeAll? (records.filter slot.accepts)) = some result ∧
        t = endOf records := by
  rw [← Outcome.success?_eq_some_iff, success?_readRecords hnumbers hrecords,
    Option.map_eq_some_iff]
  constructor
  · rintro ⟨taken, htaken, hpair⟩
    cases hpair
    exact ⟨htaken, rfl⟩
  · rintro ⟨htaken, rfl⟩
    exact ⟨result, htaken, rfl⟩

/-- Whether a record carries a tag of some slot. The others are unknown to the message. -/
def accepts (content : Content) (record : Record) : Bool :=
  content.any fun slot => slot.accepts record

theorem filter_accepts_of_mem {slot : Slot} (h : slot ∈ content) (records : List Record) :
    (records.filter content.accepts).filter slot.accepts = records.filter slot.accepts := by
  rw [List.filter_filter]
  apply List.filter_congr
  intro record _
  cases haccepts : slot.accepts record with
  | false => rfl
  | true =>
    rw [Bool.true_and]
    exact List.any_eq_true.mpr ⟨slot, h, haccepts⟩

/-- Where well-formed records are read, each slot ends as the records with its own tags make it,
whatever stands between them. Other records that are the same for every slot give the same message:
unknown ones may be put in or left out anywhere, and those of different slots may pass each other.
The elements of a repeated field are appended in their order, in one run or in several. -/
theorem readRecords_slot_by_slot {t : Input} (hnumbers : content.WellNumbered)
    (hrecords : ∀ record ∈ records, record.isWellFormed = true)
    (h : readRecords content records = (.ok result, t)) :
    (∀ slot ∈ content, ∀ record : Record, record.isWellFormed = true →
      (slot.accepts record = true ↔
        record.tag.fieldNumber = slot.number ∧
          (record.payload.wireType = .varint ∨
            slot.kind ≠ .singular ∧ record.payload.wireType = .lengthDelimited))) ∧
    (∀ (others : List Record) (other : Content) (u : Input),
      (∀ record ∈ others, record.isWellFormed = true) →
      readRecords content others = (.ok other, u) →
      ∀ (i : Nat) (slot : Slot), content[i]? = some slot →
        others.filter slot.accepts = records.filter slot.accepts → other[i]? = result[i]?) ∧
    (∀ others : List Record, (∀ record ∈ others, record.isWellFormed = true) →
      (∀ slot ∈ content, others.filter slot.accepts = records.filter slot.accepts) →
      readRecords content others = (.ok result, endOf others)) ∧
    (∀ others : List Record, (∀ record ∈ others, record.isWellFormed = true) →
      others.filter content.accepts = records.filter content.accepts →
      readRecords content others = (.ok result, endOf others)) ∧
    ∀ (i : Nat) (slot : Slot), content[i]? = some slot → slot.kind ≠ .singular →
      (∀ record ∈ records, slot.accepts record = true → record.payload.wireType = .varint) →
      result[i]? =
        some (slot.receive .elements ((records.filter slot.accepts).flatMap Record.elements)) := by
  obtain ⟨hresult, -⟩ := (readRecords_eq_ok_iff hnumbers hrecords t).mp h
  have hsame (others : List Record) (hothers : ∀ record ∈ others, record.isWellFormed = true)
      (hfilter : ∀ slot ∈ content, others.filter slot.accepts = records.filter slot.accepts) :
      readRecords content others = (.ok result, endOf others) := by
    refine (readRecords_eq_ok_iff hnumbers hothers _).mpr ⟨?_, rfl⟩
    rw [← hresult]
    exact mapM_congr_of_mem fun slot hslot => congrArg slot.takeAll? (hfilter slot hslot)
  refine ⟨?_, ?_, hsame, ?_, ?_⟩
  · intro slot hslot record hrecord
    exact slot.accepts_iff (hnumbers.fits _ (List.mem_map_of_mem hslot)) hrecord
  · intro others other u hothers hother i slot hslot hfilter
    obtain ⟨hother, -⟩ := (readRecords_eq_ok_iff hnumbers hothers u).mp hother
    rw [getElem?_of_mapM hother, getElem?_of_mapM hresult, hslot, Option.bind_some,
      Option.bind_some, hfilter]
  · intro others hothers hknown
    refine hsame others hothers fun slot hslot => ?_
    rw [← filter_accepts_of_mem hslot others, hknown, filter_accepts_of_mem hslot]
  · intro i slot hslot hkind htypes
    rw [getElem?_of_mapM hresult, hslot, Option.bind_some]
    have hfiltered : ∀ record ∈ records.filter slot.accepts,
        record ∈ records ∧ slot.accepts record = true := fun record => List.mem_filter.mp
    apply Slot.takeAll?_elements hkind
    · exact fun record hrecord => hrecords record (hfiltered record hrecord).1
    · exact fun record hrecord => (hfiltered record hrecord).2
    · intro record hrecord
      obtain ⟨hmem, haccepts⟩ := hfiltered record hrecord
      exact htypes record hmem haccepts

/-- Two elements next to each other, a packed run of the same field, and a record for each of two
other fields. -/
def inOneRun : List Record :=
  [⟨[16], .varint [5]⟩, ⟨[16], .varint [6]⟩, ⟨[18], .lengthDelimited [1] [7]⟩,
    ⟨[56], .varint [9]⟩, ⟨[0x82, 1], .lengthDelimited [2] [1, 2]⟩]

/-- The same records in another order, with an unknown field and two fields of another wire type
between them. -/
def brokenUp : List Record :=
  [⟨[0x82, 1], .lengthDelimited [2] [1, 2]⟩, ⟨[16], .varint [5]⟩,
    ⟨[41], .fixed64 [1, 2, 3, 4, 5, 6, 7, 8]⟩, ⟨[56], .varint [9]⟩, ⟨[16], .varint [6]⟩,
    ⟨[21], .fixed32 [1, 2, 3, 4]⟩, ⟨[58], .lengthDelimited [1] [0]⟩,
    ⟨[18], .lengthDelimited [1] [7]⟩]

def mixedAfter : Content :=
  [.singular 1 0 (-1), .repeated 2 [1, -2, 300, 5, 6, 7], .packed 536870911 [0, -7, 2147483647],
    .singular 7 5 9, .packed 16 [1, 2]]

theorem readRecords_slot_by_slot_mixed :
    (mixed.WellNumbered ∧ (∀ record ∈ inOneRun, record.isWellFormed = true) ∧
      readRecords mixed inOneRun = (.ok mixedAfter, endOf inOneRun)) ∧
    readRecords mixed brokenUp = (.ok mixedAfter, endOf brokenUp) := by
  have hnumbers : mixed.WellNumbered := ⟨by decide, by simp [mixed, Slot.number, Tag.Fits]⟩
  have hrecords : ∀ record ∈ inOneRun, record.isWellFormed = true := by decide
  have hread : readRecords mixed inOneRun = (.ok mixedAfter, endOf inOneRun) :=
    (readRecords_eq_ok_iff hnumbers hrecords _).mpr ⟨by decide, rfl⟩
  refine ⟨⟨hnumbers, hrecords, hread⟩, ?_⟩
  exact (readRecords_slot_by_slot hnumbers hrecords hread).2.2.1 brokenUp (by decide) (by decide)

end Content
end EnumWire.Codec
