import EnumWire.Proofs.Codec.RoundTrip
import EnumWire.Proofs.Codec.Skipping

/-! # What a record does to a message

A record changes at most the one slot whose tags it carries, by the values in its payload. The loop
reads well-formed records as if it looked at each of them alone, also where it takes a whole run of
elements in one turn. -/
namespace EnumWire.Wire

namespace Outcome

variable {α β : Type}

theorem success?_andThen (outcome : Outcome α) (next : α → Input → Outcome β) :
    (outcome.andThen next).success? = outcome.success?.bind fun (a, s) => (next a s).success? := by
  rcases outcome with ⟨e | a, s⟩
  · rfl
  · rfl

end Outcome

namespace Varint

/-! ### Bytes cut into varints -/

/-- The bytes cut after each one that ends a varint. -/
def pieces : Bytes → List Bytes
  | [] => []
  | b :: rest =>
    if b < 0x80 then [b] :: pieces rest
    else match pieces rest with
      | [] => [[b]]
      | piece :: more => (b :: piece) :: more

theorem flatten_pieces (bytes : Bytes) : (pieces bytes).flatten = bytes := by
  induction bytes with
  | nil => rfl
  | cons b rest ih =>
    rw [pieces]
    split
    · rw [List.flatten_cons, ih]
      rfl
    · cases hrest : pieces rest with
      | nil =>
        rw [hrest] at ih
        rw [← ih]
        rfl
      | cons piece more =>
        rw [hrest] at ih
        rw [← ih]
        rfl

theorem pieces_append {front : Bytes} (rest : Bytes) (h : endsOnce front = true) :
    pieces (front ++ rest) = front :: pieces rest := by
  induction front with
  | nil => cases h
  | cons b front ih =>
    rw [endsOnce_cons] at h
    rw [List.cons_append, pieces]
    by_cases hb : b < 0x80
    · rw [if_pos hb, List.isEmpty_iff] at h
      rw [if_pos hb, h, List.nil_append]
    · rw [if_neg hb] at h
      rw [if_neg hb, ih h]

theorem pieces_flatten {runs : List Bytes} (h : ∀ run ∈ runs, isEncoding run = true) :
    pieces runs.flatten = runs := by
  induction runs with
  | nil => rfl
  | cons run runs ih =>
    obtain ⟨hrun, hruns⟩ := List.forall_mem_cons.mp h
    rw [isEncoding_eq, Bool.and_eq_true] at hrun
    rw [List.flatten_cons, pieces_append _ hrun.2, ih hruns]

/-- The values of bytes that are varints one after the other. -/
def values? (bytes : Bytes) : Option (List Int32) :=
  if (pieces bytes).all isEncoding then some ((pieces bytes).map int32) else none

theorem values?_flatten {runs : List Bytes} (h : ∀ run ∈ runs, isEncoding run = true) :
    values? runs.flatten = some (runs.map int32) := by
  rw [values?, pieces_flatten h, if_pos (List.all_eq_true.mpr h)]

theorem isEncoding_of_values? {bytes : Bytes} {vs : List Int32} (h : values? bytes = some vs) :
    ∀ piece ∈ pieces bytes, isEncoding piece = true := by
  unfold values? at h
  split at h
  · rename_i hall
    exact List.all_eq_true.mp hall
  · cases h

theorem isEncoding_append_inj {front other rest behind : Bytes} (hfront : isEncoding front = true)
    (hother : isEncoding other = true) (h : front ++ rest = other ++ behind) :
    front = other ∧ rest = behind := by
  have hleft := leading_eq_some_iff.mpr ⟨hfront, rest, rfl⟩
  have hright := leading_eq_some_iff.mpr ⟨hother, behind, rfl⟩
  rw [h, hright] at hleft
  obtain rfl := Option.some.inj hleft
  exact ⟨rfl, List.append_cancel_left h⟩

end Varint

theorem Payload.eq_varint {payload : Payload} (h : payload.wireType = .varint) :
    ∃ bytes, payload = .varint bytes := by
  cases payload with
  | varint bytes => exact ⟨bytes, rfl⟩
  | fixed64 bytes => cases h
  | lengthDelimited length content => cases h
  | fixed32 bytes => cases h

theorem Payload.eq_lengthDelimited {payload : Payload} (h : payload.wireType = .lengthDelimited) :
    ∃ length content, payload = .lengthDelimited length content := by
  cases payload with
  | varint bytes => cases h
  | fixed64 bytes => cases h
  | lengthDelimited length content => exact ⟨length, content, rfl⟩
  | fixed32 bytes => cases h

end EnumWire.Wire

namespace EnumWire

open EnumWire.Wire

/-- The values that an arm takes from a payload. -/
def Intake.values? : Intake → Payload → Option (List Int32)
  | .packedRun _, .lengthDelimited _ content => Varint.values? content
  | .value, .varint bytes => some [Varint.int32 bytes]
  | .elements, .varint bytes => some [Varint.int32 bytes]
  | _, _ => none

namespace Codec

variable {s : Input} {rest : Bytes} {record : Record}

/-- A run is read exactly when what its length announces is varints one after the other. -/
theorem success?_readPackedRun {length content : Bytes} (hlength : Varint.isEncoding length = true)
    (hcontent : content.length = (Varint.word32 length).toNat)
    (h : s.pending = length ++ content ++ rest) :
    (Intake.readPackedRun s).success? =
      (Varint.values? content).map fun vs => (vs, s.advance (length ++ content).length) := by
  cases hvalues : Varint.values? content with
  | some vs =>
    have hpieces := Varint.isEncoding_of_values? hvalues
    have hflatten := Varint.flatten_pieces content
    have hrun : IsPackedRun length (Varint.pieces content) :=
      ⟨hlength, hpieces, by rw [hflatten, hcontent]⟩
    rw [← hflatten] at h hvalues
    rw [Varint.values?_flatten hpieces] at hvalues
    rw [readPackedRun_of_isPackedRun hrun h, Option.some.inj hvalues, hflatten, ← List.length_append]
    rfl
  | none =>
    rcases hread : Intake.readPackedRun s with ⟨e | vs, t⟩
    · rfl
    · -- A run that was read begins with the same prefix, so its varints are this content.
      obtain ⟨head, pieces, behind, hpending, hrun⟩ := isPackedRun_of_readPackedRun hread
      rw [h, List.append_assoc, List.append_assoc] at hpending
      obtain ⟨rfl, hbehind⟩ :=
        Varint.isEncoding_append_inj hlength hrun.head_isEncoding hpending
      have hsame := List.append_inj_left hbehind (hcontent.trans hrun.length_eq.symm)
      rw [hsame, Varint.values?_flatten hrun.isEncoding] at hvalues
      cases hvalues

namespace Slot

variable {slot : Slot} {intake : Intake}

/-- Whether a record carries one of the tags of a slot: the one of a singular field, or those of
both encodings of a repeated field. -/
def accepts (slot : Slot) (record : Record) : Bool := slot.arms.any fun arm => arm.tag = record.tag

/-- What a slot holds after a record, unless an arm of the slot cannot read the payload. -/
def take? (slot : Slot) (record : Record) : Option Slot :=
  match slot.intake? record.tag with
  | none => some slot
  | some intake => (intake.values? record.payload).map (slot.receive intake)

theorem accepts_eq_isSome (slot : Slot) (record : Record) :
    slot.accepts record = (slot.intake? record.tag).isSome := by
  rw [accepts, intake?, Option.isSome_map, List.isSome_find?]

theorem take?_of_not_accepts (h : slot.accepts record = false) : slot.take? record = some slot := by
  rw [accepts_eq_isSome, Option.isSome_eq_false_iff, Option.isNone_iff_eq_none] at h
  rw [take?, h]

theorem take?_of_intake? (h : slot.intake? record.tag = some intake) :
    slot.take? record = (intake.values? record.payload).map (slot.receive intake) := by
  rw [take?, h]

/-- A record leaves the field of a slot as it is. -/
theorem field_of_take? {next : Slot} (h : slot.take? record = some next) :
    next.number = slot.number ∧ next.kind = slot.kind := by
  unfold take? at h
  split at h
  · cases h
    exact ⟨rfl, rfl⟩
  · obtain ⟨vs, -, rfl⟩ := Option.map_eq_some_iff.mp h
    exact ⟨number_receive _ vs slot, kind_receive _ vs slot⟩

theorem accepts_of_take? {next : Slot} (h : slot.take? record = some next) :
    next.accepts = slot.accepts := by
  obtain ⟨hnumber, hkind⟩ := field_of_take? h
  funext other
  rw [accepts, accepts, arms, arms, hnumber, hkind]

theorem wireType_of_intake? (hrecord : record.isWellFormed = true)
    (h : slot.intake? record.tag = some intake) : record.payload.wireType = intake.wireType := by
  obtain ⟨-, -, htype, -⟩ := record.isWellFormed_iff.mp hrecord
  rw [tag_of_intake? h, Tag.wireType?_make] at htype
  exact (Option.some.inj htype).symm

end Slot

namespace Content

variable {before after content next : Content} {slot : Slot} {intake : Intake}

/-- What the slots hold after a record. -/
def take? (content : Content) (record : Record) : Option Content :=
  content.mapM fun slot => slot.take? record

theorem take?_of_no_arm (h : ∀ slot ∈ content, slot.intake? record.tag = none) :
    content.take? record = some content := by
  induction content with
  | nil => rfl
  | cons slot content ih =>
    obtain ⟨hslot, hcontent⟩ := List.forall_mem_cons.mp h
    have hrest : content.mapM (fun slot => slot.take? record) = some content := ih hcontent
    rw [take?, List.mapM_cons, Slot.take?, hslot, hrest]
    rfl

theorem take?_of_arm (hbefore : ∀ other ∈ before, other.intake? record.tag = none)
    (hafter : ∀ other ∈ after, other.intake? record.tag = none)
    (h : slot.intake? record.tag = some intake) :
    (before ++ slot :: after).take? record =
      (intake.values? record.payload).map fun vs => before ++ slot.receive intake vs :: after := by
  have hfront : before.mapM (fun slot => slot.take? record) = some before := take?_of_no_arm hbefore
  have hback : after.mapM (fun slot => slot.take? record) = some after := take?_of_no_arm hafter
  rw [take?, List.mapM_append, List.mapM_cons, hfront, hback, Slot.take?_of_intake? h]
  cases intake.values? record.payload with
  | none => rfl
  | some vs => rfl

theorem WellNumbered.of_take? (hnumbers : content.WellNumbered)
    (h : content.take? record = some next) : next.WellNumbered := by
  refine hnumbers.of_map_number ?_
  clear hnumbers
  induction content generalizing next with
  | nil =>
    cases h
    rfl
  | cons slot content ih =>
    rw [take?, List.mapM_cons] at h
    obtain ⟨first, hfirst, h⟩ := Option.bind_eq_some_iff.mp h
    obtain ⟨others, hothers, h⟩ := Option.bind_eq_some_iff.mp h
    cases h
    rw [List.map_cons, List.map_cons, ih hothers, (Slot.field_of_take? hfirst).1]

/-! ### The loop, record by record -/

theorem success?_readInto_of_arm (hnumbers : (before ++ slot :: after).WellNumbered)
    (hrecord : record.isWellFormed = true) (htake : slot.intake? record.tag = some intake)
    (h : s.pending = record.bytes ++ rest) :
    (readInto (before ++ slot :: after) s).success? =
      (intake.values? record.payload).bind fun vs =>
        (readInto (before ++ slot.receive intake vs :: after)
          (s.advance record.bytes.length)).success? := by
  obtain ⟨-, -, -, hpayload⟩ := record.isWellFormed_iff.mp hrecord
  have hbefore : ∀ other ∈ before, other.intake? record.tag = none := by
    rw [Slot.tag_of_intake? htake]
    exact hnumbers.intake?_before _
  have htype := Slot.wireType_of_intake? hrecord htake
  rw [readInto_of_record _ hrecord h]
  rw [Record.bytes, List.append_assoc] at h
  have hbehind := Input.pending_advance h
  rw [Record.bytes, List.length_append, ← Input.advance_advance]
  cases intake with
  | value =>
    obtain ⟨bytes, hvarint⟩ := Payload.eq_varint htype
    rw [hvarint] at hpayload hbehind ⊢
    rw [dispatch_of_intake? _ hbefore htake, Intake.read,
      Input.readInt32_of_encoding hbehind hpayload]
    rfl
  | elements =>
    obtain ⟨bytes, hvarint⟩ := Payload.eq_varint htype
    rw [hvarint] at hpayload hbehind ⊢
    exact success?_dispatch_elements hbefore htake (Input.readInt32_of_encoding hbehind hpayload)
  | packedRun replaces =>
    obtain ⟨length, content, hrun⟩ := Payload.eq_lengthDelimited htype
    rw [hrun] at hpayload hbehind ⊢
    rw [Payload.isWellFormed, Bool.and_eq_true, decide_eq_true_eq] at hpayload
    have hread := success?_readPackedRun hpayload.1 hpayload.2 hbehind
    rw [dispatch_of_intake? _ hbefore htake, Intake.read, Outcome.success?_andThen,
      Outcome.success?_andThen, hread, Option.bind_map]
    cases hvalues : Varint.values? content with
    | none => simp [Intake.values?, hvalues]
    | some vs => simp [Intake.values?, hvalues, Outcome.success?, Payload.bytes]

/-- A record that no slot takes is skipped, and one that a slot takes changes that slot. -/
theorem success?_readInto_record (hnumbers : content.WellNumbered)
    (hrecord : record.isWellFormed = true) (h : s.pending = record.bytes ++ rest) :
    (readInto content s).success? =
      (content.take? record).bind fun next =>
        (readInto next (s.advance record.bytes.length)).success? := by
  by_cases harm : ∃ slot ∈ content, (slot.intake? record.tag).isSome = true
  · obtain ⟨slot, hslot, hsome⟩ := harm
    obtain ⟨intake, htake⟩ := Option.isSome_iff_exists.mp hsome
    obtain ⟨before, after, rfl⟩ := List.append_of_mem hslot
    have hbefore := hnumbers.intake?_before intake.wireType
    have hafter := hnumbers.intake?_after intake.wireType
    rw [← Slot.tag_of_intake? htake] at hbefore hafter
    rw [success?_readInto_of_arm hnumbers hrecord htake h, take?_of_arm hbefore hafter htake,
      Option.bind_map]
    rfl
  · have hnone : ∀ slot ∈ content, slot.intake? record.tag = none := by
      intro slot hslot
      cases htake : slot.intake? record.tag with
      | none => rfl
      | some intake => exact absurd ⟨slot, hslot, Option.isSome_of_eq_some htake⟩ harm
    rw [readInto_skip hrecord hnone h, take?_of_no_arm hnone]
    rfl

/-- A loop over records takes them one at a time, in their order, and ends behind the last one. -/
theorem success?_readInto_records {records : List Record} (hs : s.InBounds)
    (hnumbers : content.WellNumbered) (hrecords : ∀ record ∈ records, record.isWellFormed = true)
    (h : s.pending = records.flatMap Record.bytes) :
    (readInto content s).success? =
      (records.foldlM take? content).map fun result =>
        (result, s.advance (records.flatMap Record.bytes).length) := by
  induction records generalizing content s with
  | nil =>
    rw [readInto_of_pending_nil content hs h]
    rfl
  | cons record records ih =>
    obtain ⟨hrecord, hrecords⟩ := List.forall_mem_cons.mp hrecords
    rw [List.flatMap_cons] at h
    rw [success?_readInto_record hnumbers hrecord h, List.foldlM_cons]
    cases htake : content.take? record with
    | none => rfl
    | some next =>
      have hrest := ih (hs.advance h) (hnumbers.of_take? htake) hrecords (Input.pending_advance h)
      rw [Option.bind_some, hrest, Input.advance_advance, List.flatMap_cons, List.length_append]
      rfl

end Content
end Codec
end EnumWire
