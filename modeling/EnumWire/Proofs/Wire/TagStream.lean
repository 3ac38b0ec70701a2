import Mathlib.Data.Set.Function
import EnumWire.Proofs.Wire.Records
import EnumWire.Proofs.Wire.Written

/-! # Tags on the wire

A tag of a known wire type is a field number below `2 ^ 29` and this type, and nothing else. Written
anywhere it is read back from as many bytes as its size says, unless shifting has left nothing of its
number. Only at the limit does the reader answer 0. -/
namespace EnumWire.Wire.Tag

/-! ### Parts -/

theorem toNat_fieldNumber_lt (tag : Tag) : (fieldNumber tag).toNat < 2 ^ 29 := by
  have hlt := tag.toNat_lt
  rw [toNat_fieldNumber]
  omega

theorem wireType?_eq_some_iff (tag : Tag) (w : WireType) :
    wireType? tag = some w ↔ make (fieldNumber tag) w = tag := by
  refine ⟨make_fieldNumber, fun h => ?_⟩
  have hmake := wireType?_make (fieldNumber tag) w
  rwa [h] at hmake

theorem make_bijOn :
    Set.BijOn (fun part : UInt32 × WireType => make part.1 part.2)
      {part | part.1.toNat < 2 ^ 29} {tag | (wireType? tag).isSome} := by
  refine ⟨?_, ?_, ?_⟩
  · rintro ⟨number, w⟩ -
    exact Option.isSome_of_mem (wireType?_make number w)
  · rintro ⟨m, v⟩ hm ⟨n, w⟩ hn h
    exact Prod.ext_iff.mpr (make_inj hm hn h)
  · intro tag htag
    obtain ⟨w, hw⟩ := Option.isSome_iff_exists.mp htag
    exact ⟨(fieldNumber tag, w), toNat_fieldNumber_lt tag, make_fieldNumber hw⟩

/-! ### On the wire -/

theorem fieldNumber_make_eq_zero_iff (number : UInt32) (w : WireType) :
    fieldNumber (make number w) = 0 ↔ number.toNat % 2 ^ 29 = 0 := by
  rw [← UInt32.toNat_inj, toNat_fieldNumber_make]
  rfl

theorem readTag_inputBefore (out : Output) (number : UInt32) (w : WireType) (behind : Bytes)
    (room : Nat) :
    (out.inputBefore (.tag number w) behind room).readTag =
      (if number.toNat % 2 ^ 29 = 0 then .error (.invalidTag (make number w))
        else .ok (make number w), out.inputAfter (.tag number w) behind room) := by
  have hpending := out.pending_inputBefore (.tag number w) behind room
  have hencoding := Varint.isEncoding_encode (make number w).toUInt64
  rw [Input.readTag, if_neg (Input.not_atEnd_of_encoding hpending hencoding),
    Input.readVarint32_of_encoding hpending hencoding, Outcome.andThen, out.advance_inputBefore,
    Write.bytes, Varint.word32_encode]
  simp only [fieldNumber_make_eq_zero_iff]
  split <;> rfl

theorem pos_inputAfter (out : Output) (number : UInt32) (w : WireType) (behind : Bytes)
    (room : Nat) :
    (out.inputAfter (.tag number w) behind room).pos =
      (out.inputBefore (.tag number w) behind room).pos + Tag.size number := by
  rw [← length_encode number w]
  exact out.size_write (.tag number w)

/-- A tag keeps its wire type and its number modulo `2 ^ 29`, and a tag of a known wire type is the
one of its parts. On the wire it takes its size and is read back, or is reported as invalid when
nothing is left of its number. The tag 0 is answered at the limit and nowhere else. -/
theorem splits_and_reads_back :
    (∀ (number : UInt32) (w : WireType),
      (fieldNumber (make number w)).toNat = number.toNat % 2 ^ 29 ∧
      wireType? (make number w) = some w) ∧
    (∀ (tag : Tag) (w : WireType), wireType? tag = some w ↔ make (fieldNumber tag) w = tag) ∧
    Set.BijOn (fun part : UInt32 × WireType => make part.1 part.2)
      {part | part.1.toNat < 2 ^ 29} {tag | (wireType? tag).isSome} ∧
    (∀ (out : Output) (number : UInt32) (w : WireType) (behind : Bytes) (room : Nat),
      (out.inputBefore (.tag number w) behind room).readTag =
        (if number.toNat % 2 ^ 29 = 0 then .error (.invalidTag (make number w))
          else .ok (make number w), out.inputAfter (.tag number w) behind room) ∧
      (out.inputAfter (.tag number w) behind room).pos =
        (out.inputBefore (.tag number w) behind room).pos + Tag.size number) ∧
    ∀ s : Input, (∃ t, s.readTag = (.ok 0, t)) ↔ s.pos = s.limit := by
  refine ⟨fun number w => ⟨toNat_fieldNumber_make number w, wireType?_make number w⟩,
    wireType?_eq_some_iff, make_bijOn, fun out number w behind room => ?_, fun s => ?_⟩
  · exact ⟨readTag_inputBefore out number w behind room, pos_inputAfter out number w behind room⟩
  · constructor
    · rintro ⟨t, ht⟩
      exact of_decide_eq_true (Input.readTag_eq_zero_iff.mp ht).1
    · intro hend
      exact ⟨s, Input.readTag_eq_zero_iff.mpr ⟨decide_eq_true hend, rfl⟩⟩

end EnumWire.Wire.Tag
