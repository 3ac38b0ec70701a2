import EnumWire.Proofs.Codec.Dispatch
import EnumWire.Proofs.Codec.PackedRun
import EnumWire.Proofs.Codec.Sizes

/-! # Messages written and read back

The loop reads the bytes of one slot after the other and leaves each slot as it was written. Where
the elements of one slot end, the count meets the tag of another one or the end of the input. -/
namespace EnumWire.Codec

open EnumWire.Wire

/-! ### Reading one slot over another of the same field -/

namespace Slot

/-- What a slot holds once another slot of its field has been read into it. -/
def overlay : Slot → Slot → Slot
  | .singular n default value, .singular _ _ other =>
    .singular n default (if other = default then value else other)
  | .repeated n values, .repeated _ others => .repeated n (values ++ others)
  | .packed n values, .packed _ others => .packed n (if others = [] then values else others)
  | slot, _ => slot

theorem overlay_initial (slot : Slot) : slot.initial.overlay slot = slot := by
  cases slot with
  | singular n default value =>
    by_cases h : value = default
    · simp [initial, overlay, h]
    · simp [initial, overlay, h]
  | «repeated» n values => simp [initial, overlay]
  | packed n values =>
    by_cases h : values = []
    · simp [initial, overlay, h]
    · simp [initial, overlay, h]

@[simp] theorem number_initial (slot : Slot) : slot.initial.number = slot.number := by
  cases slot <;> rfl

theorem initial_initial (slot : Slot) : slot.initial.initial = slot.initial := by
  cases slot <;> rfl

@[simp] theorem number_overlay (slot other : Slot) : (slot.overlay other).number = slot.number := by
  cases slot <;> cases other <;> rfl

end Slot

theorem isPackedRun_elements {values : List Int32} (h : Slot.elementsSize values < 2 ^ 32) :
    IsPackedRun (Varint.encode (UInt32.ofNat (Slot.elementsSize values)).toUInt64)
      (values.map Varint.encodeInt32) where
  head_isEncoding := Varint.isEncoding_encode _
  isEncoding := by
    intro piece hpiece
    obtain ⟨v, -, rfl⟩ := List.mem_map.mp hpiece
    exact Varint.isEncoding_encodeInt32 v
  length_eq := by
    rw [Varint.word32_encode, UInt32.toNat_ofNat', Nat.mod_eq_of_lt h, ← length_elementsBytes]
    rfl

namespace Content

variable {before after : Content} {n : UInt32} {rest : Bytes} {s : Input}

theorem readInto_of_tag {w : WireType} (content : Content) (hfits : Tag.Fits n)
    (h : s.pending = Varint.encode (Tag.make n w).toUInt64 ++ rest) :
    readInto content s =
      (dispatch (Tag.make n w) content
        (s.advance (Varint.encode (Tag.make n w).toUInt64).length)).andThen readInto := by
  have hencoding := Varint.isEncoding_encode (Tag.make n w).toUInt64
  have htag := Input.readTag_of_encoding h hencoding
  rw [Varint.word32_encode] at htag
  exact readInto_of_readTag content (htag (Tag.fieldNumber_make_ne_zero hfits w))
    (Input.not_atEnd_of_encoding h hencoding)

theorem readInto_singular {default value other : Int32} (hfits : Tag.Fits n)
    (hbefore : ∀ slot ∈ before, slot.intake? (Tag.make n .varint) = none) (hne : other ≠ default)
    (h : s.pending = (Slot.singular n default other).bytes ++ rest) :
    readInto (before ++ .singular n default value :: after) s =
      readInto (before ++ .singular n default other :: after)
        (s.advance (Slot.singular n default other).bytes.length) := by
  rw [Slot.bytes_singular, if_neg hne] at h ⊢
  rw [List.append_assoc] at h
  have hbehind := Input.pending_advance h
  have hvalue := Input.readInt32_of_encoding hbehind (Varint.isEncoding_encodeInt32 other)
  have htake : (Slot.singular n default value).intake? (Tag.make n .varint) = some .value :=
    Slot.intake?_declaredArm (.singular n default value)
  rw [readInto_of_tag _ hfits h, dispatch_of_intake? _ hbefore htake, Intake.read, hvalue,
    Varint.int32_encodeInt32, Input.advance_advance, List.length_append]
  rfl

/-- Elements with a tag each go into the slot whose arm takes them, whatever encoding it declares. -/
theorem success?_readInto_elements {slot : Slot} {values : List Int32} (hfits : Tag.Fits n)
    (hbefore : ∀ other ∈ before, other.intake? (Tag.make n .varint) = none)
    (htake : slot.intake? (Tag.make n .varint) = some .elements)
    (h : s.pending = (Slot.repeated n values).bytes ++ rest) :
    (readInto (before ++ slot :: after) s).success? =
      (readInto (before ++ slot.receive .elements values :: after)
        (s.advance (Slot.repeated n values).bytes.length)).success? := by
  induction values generalizing slot s with
  | nil =>
    rw [Slot.receive_elements_nil]
    rfl
  | cons v values ih =>
    rw [Slot.bytes_repeated_cons, List.append_assoc, List.append_assoc] at h
    have hbehind := Input.pending_advance h
    have hvalue := Input.readInt32_of_encoding hbehind (Varint.isEncoding_encodeInt32 v)
    rw [Varint.int32_encodeInt32] at hvalue
    have hnext : (slot.receive .elements [v]).intake? (Tag.make n .varint) = some .elements := by
      rw [Slot.intake?_receive, htake]
    rw [readInto_of_tag _ hfits h, success?_dispatch_elements hbefore htake hvalue,
      ih hnext (Input.pending_advance hbehind), Slot.receive_elements_cons]
    simp [Slot.bytes_repeated_cons, Nat.add_assoc]

/-- A packed run goes into the slot whose arm takes it, whichever encoding it declares. -/
theorem readInto_packedRun {slot : Slot} {values : List Int32} {replaces : Bool}
    (hfits : Tag.Fits n)
    (hbefore : ∀ other ∈ before, other.intake? (Tag.make n .lengthDelimited) = none)
    (htake : slot.intake? (Tag.make n .lengthDelimited) = some (.packedRun replaces))
    (hne : values ≠ []) (hpayload : Slot.elementsSize values < 2 ^ 32)
    (h : s.pending = (Slot.packed n values).bytes ++ rest) :
    readInto (before ++ slot :: after) s =
      readInto (before ++ slot.receive (.packedRun replaces) values :: after)
        (s.advance (Slot.packed n values).bytes.length) := by
  rw [Slot.bytes_packed, if_neg hne] at h ⊢
  rw [List.append_assoc, List.append_assoc] at h
  have hbehind := Input.pending_advance h
  rw [← List.append_assoc] at hbehind
  have hread := readPackedRun_of_isPackedRun (isPackedRun_elements hpayload) hbehind
  have hvalues : (values.map Varint.encodeInt32).map Varint.int32 = values := by
    simp [Varint.int32_encodeInt32, Function.comp_def]
  have hlength : (values.map Varint.encodeInt32).flatten.length = (elementsBytes values).length := rfl
  rw [readInto_of_tag _ hfits h, dispatch_of_intake? _ hbefore htake, Intake.read, hread, hvalues,
    hlength, Input.advance_advance, List.length_append, List.length_append, Nat.add_assoc]
  rfl

/-! ### Messages -/

/-- Field numbers that tags can carry, each of them once. -/
structure WellNumbered (content : Content) : Prop where
  nodup : (content.map Slot.number).Nodup
  fits : ∀ number ∈ content.map Slot.number, Tag.Fits number

variable {slot old : Slot}

theorem WellNumbered.fits_slot (h : (before ++ slot :: after).WellNumbered) :
    Tag.Fits slot.number :=
  h.fits _ (by simp)

/-- The tags of a field lead to no other slot of the message. -/
theorem WellNumbered.intake?_other (h : (before ++ slot :: after).WellNumbered) (w : WireType)
    (hother : old ∈ before ++ after) : old.intake? (Tag.make slot.number w) = none := by
  have hmem : old.number ∈ (before ++ after).map Slot.number := List.mem_map_of_mem hother
  have hperm : ((before ++ slot :: after).map Slot.number).Perm
      ((slot :: (before ++ after)).map Slot.number) := List.perm_middle.map Slot.number
  have hnodup := hperm.nodup_iff.mp h.nodup
  rw [List.map_cons, List.nodup_cons] at hnodup
  have hfits : Tag.Fits old.number := h.fits _ (hperm.mem_iff.mpr (List.mem_cons_of_mem _ hmem))
  exact Slot.intake?_of_ne hfits h.fits_slot (fun hsame => hnodup.1 (hsame ▸ hmem)) w

theorem WellNumbered.intake?_before (h : (before ++ slot :: after).WellNumbered) (w : WireType) :
    ∀ other ∈ before, other.intake? (Tag.make slot.number w) = none :=
  fun _ hother => h.intake?_other w (List.mem_append_left after hother)

theorem WellNumbered.intake?_after (h : (before ++ slot :: after).WellNumbered) (w : WireType) :
    ∀ other ∈ after, other.intake? (Tag.make slot.number w) = none :=
  fun _ hother => h.intake?_other w (List.mem_append_right before hother)

theorem WellNumbered.of_map_number {content other : Content} (h : content.WellNumbered)
    (hmap : other.map Slot.number = content.map Slot.number) : other.WellNumbered where
  nodup := by
    rw [hmap]
    exact h.nodup
  fits := by
    rw [hmap]
    exact h.fits

theorem success?_readInto_slot (hnumbers : (before ++ old :: after).WellNumbered)
    (hfield : old.initial = slot.initial) (hpayload : slot.payloadSize < 2 ^ 32)
    (h : s.pending = slot.bytes ++ rest) :
    (readInto (before ++ old :: after) s).success? =
      (readInto (before ++ old.overlay slot :: after) (s.advance slot.bytes.length)).success? := by
  have hfits := hnumbers.fits_slot
  have hbefore := hnumbers.intake?_before
  cases slot with
  | singular n default other =>
    cases old with
    | singular m first value =>
      cases hfield
      by_cases hother : other = default
      · simp [Slot.overlay, Slot.bytes_singular, hother]
      · rw [Slot.overlay, if_neg hother]
        exact congrArg Outcome.success? (readInto_singular hfits (hbefore .varint) hother h)
    | «repeated» m values => cases hfield
    | packed m values => cases hfield
  | «repeated» n others =>
    cases old with
    | singular m first value => cases hfield
    | «repeated» m values =>
      cases hfield
      have htake := Slot.intake?_declaredArm (.repeated n values)
      exact success?_readInto_elements hfits (hbefore .varint) htake h
    | packed m values => cases hfield
  | packed n others =>
    cases old with
    | singular m first value => cases hfield
    | «repeated» m values => cases hfield
    | packed m values =>
      cases hfield
      by_cases hothers : others = []
      · simp [Slot.overlay, Slot.bytes_packed, hothers]
      · have htake := Slot.intake?_declaredArm (.packed n values)
        rw [Slot.overlay, if_neg hothers]
        exact congrArg Outcome.success?
          (readInto_packedRun hfits (hbefore .lengthDelimited) htake hothers hpayload h)

/-- What a message holds once another one of its type has been read into it. -/
def overlay (content other : Content) : Content := content.zipWith Slot.overlay other

theorem initial_overlay (content : Content) : content.initial.overlay content = content := by
  induction content with
  | nil => rfl
  | cons slot content ih =>
    rw [initial, overlay, List.map_cons, List.zipWith_cons_cons, slot.overlay_initial]
    exact congrArg (slot :: ·) ih

theorem map_number_initial (content : Content) :
    content.initial.map Slot.number = content.map Slot.number := by
  simp [initial, Function.comp_def]

theorem success?_readInto_bytes {olds content : Content} (hnumbers : (before ++ olds).WellNumbered)
    (hfields : olds.initial = content.initial)
    (hpayloads : ∀ slot ∈ content, slot.payloadSize < 2 ^ 32)
    (h : s.pending = content.flatMap Slot.bytes ++ rest) :
    (readInto (before ++ olds) s).success? =
      (readInto (before ++ olds.overlay content)
        (s.advance (content.flatMap Slot.bytes).length)).success? := by
  induction content generalizing before olds s with
  | nil =>
    cases olds with
    | nil => rfl
    | cons old olds => cases hfields
  | cons slot content ih =>
    cases olds with
    | nil => cases hfields
    | cons old olds =>
      obtain ⟨hfield, hfields⟩ := List.cons.inj hfields
      rw [List.flatMap_cons, List.append_assoc] at h
      obtain ⟨hpayload, hpayloads⟩ := List.forall_mem_cons.mp hpayloads
      have hslot := success?_readInto_slot hnumbers hfield hpayload h
      have hnext : (before ++ [old.overlay slot] ++ olds).WellNumbered :=
        hnumbers.of_map_number (by simp)
      have hrest := ih hnext hfields hpayloads (Input.pending_advance h)
      simp only [List.append_assoc, List.singleton_append] at hrest
      rw [hslot, hrest, Input.advance_advance, List.flatMap_cons, List.length_append]
      rfl

theorem readInto_of_atEnd (content : Content) (h : s.atEnd = true) :
    readInto content s = (.ok content, s) := by
  rw [readInto_eq, Input.readTag, if_pos h]
  rfl

/-- The second pass appends as many bytes as the first computes, and the loop reads them back into
a new message: every field with its value or its elements, and no byte left. -/
theorem readInto_encode (content : Content) (hnumbers : content.WellNumbered)
    (hpayloads : ∀ slot ∈ content, slot.payloadSize < 2 ^ 32) :
    (∀ out : Output,
      (content.write out content.sizes.payloads).bytes = out.bytes ++ content.encode) ∧
    content.encode.length = content.sizes.total ∧
    readInto content.initial (Input.ofBytes content.encode.toArray) =
      (.ok content, (Input.ofBytes content.encode.toArray).advance content.sizes.total) := by
  have hbytes := encode_eq content
  have hlength := length_encode content
  refine ⟨fun out => ?_, hlength, ?_⟩
  · rw [bytes_write, hbytes]
  · have hpending : (Input.ofBytes content.encode.toArray).pending =
        content.flatMap Slot.bytes ++ [] := by
      rw [Input.pending_ofBytes, hbytes, List.append_nil]
    have hnew : Content.WellNumbered ([] ++ content.initial) :=
      hnumbers.of_map_number content.map_number_initial
    have hfields : content.initial.initial = content.initial := by
      simp [initial, Slot.initial_initial]
    have hrun := success?_readInto_bytes hnew hfields hpayloads hpending
    have hend :
        ((Input.ofBytes content.encode.toArray).advance content.sizes.total).atEnd = true := by
      simp [Input.atEnd, Input.advance, Input.ofBytes, hlength, sizes]
    rw [List.nil_append, List.nil_append, initial_overlay, ← hbytes, hlength] at hrun
    exact Outcome.success?_eq_some_iff.mp (hrun.trans (congrArg _ (readInto_of_atEnd content hend)))

/-- Every kind of field, with numbers at both ends of the range, a value at its default, negative
values and an empty list. -/
def mixed : Content :=
  [.singular 1 0 (-1), .repeated 2 [1, -2, 300], .packed 536870911 [0, -7, 2147483647],
    .singular 7 5 5, .packed 16 []]

theorem readInto_encode_mixed :
    (mixed.WellNumbered ∧ ∀ slot ∈ mixed, slot.payloadSize < 2 ^ 32) ∧
    (∀ out : Output, (mixed.write out mixed.sizes.payloads).bytes = out.bytes ++ mixed.encode) ∧
    mixed.encode.length = mixed.sizes.total ∧
    readInto mixed.initial (Input.ofBytes mixed.encode.toArray) =
      (.ok mixed, (Input.ofBytes mixed.encode.toArray).advance mixed.sizes.total) := by
  have hnumbers : mixed.WellNumbered := ⟨by decide, by simp [mixed, Slot.number, Tag.Fits]⟩
  have hpayloads : ∀ slot ∈ mixed, slot.payloadSize < 2 ^ 32 := by decide
  exact ⟨⟨hnumbers, hpayloads⟩, readInto_encode mixed hnumbers hpayloads⟩

end Content
end EnumWire.Codec
