import EnumWire.Proofs.Wire.VarintReading

/-! # Records in front of a reader

A well-formed record at the head of the pending bytes is read off in two steps, its tag and what the
tag announces. In bounds, nothing else is read as a tag, and nothing else is skipped. -/
namespace EnumWire.Wire

theorem Record.isWellFormed_iff (record : Record) :
    record.isWellFormed = true ↔
      Varint.isEncoding record.head = true ∧ record.tag.fieldNumber ≠ 0 ∧
        record.tag.wireType? = some record.payload.wireType ∧ record.payload.isWellFormed = true := by
  simp [isWellFormed, and_assoc]

namespace Input

variable {s t : Input} {tag : Tag} {rest : Bytes}

theorem InBounds.length_pending (h : s.InBounds) : s.pending.length = s.left := by
  have hpos := h.pos_le
  have hlimit := h.limit_le
  rw [pending, List.length_take, List.length_drop, Array.length_toList, left]
  omega

theorem InBounds.atEnd_of_pending_nil (h : s.InBounds) (hpending : s.pending = []) :
    s.atEnd = true := by
  have hlength := h.length_pending
  have hpos := h.pos_le
  rw [hpending, List.length_nil, left] at hlength
  exact decide_eq_true (by omega)

theorem InBounds.pending_split (h : s.InBounds) {count : Nat} (hcount : count ≤ s.left) :
    ∃ front rest, s.pending = front ++ rest ∧ front.length = count := by
  refine ⟨s.pending.take count, s.pending.drop count, (List.take_append_drop _ _).symm, ?_⟩
  rw [List.length_take, h.length_pending, Nat.min_eq_left hcount]

theorem inBounds_ofBytes (bytes : Array UInt8) : (ofBytes bytes).InBounds :=
  ⟨Nat.zero_le _, Nat.le_refl _⟩

theorem InBounds.advance (h : s.InBounds) {front : Bytes} (hpending : s.pending = front ++ rest) :
    (s.advance front.length).InBounds where
  pos_le := by
    have hle := length_le_left hpending
    have hpos := h.pos_le
    rw [left] at hle
    simp only [Input.advance]
    omega
  limit_le := h.limit_le

/-! ### The value behind a tag -/

theorem skipBytes_of_le {count : Nat} (h : count ≤ s.left) :
    s.skipBytes count = (.ok (), s.advance count) := by
  rw [skipBytes, if_neg (Nat.not_lt.mpr h)]

theorem le_left_of_skipBytes {count : Nat} (h : s.skipBytes count = (.ok (), t)) :
    count ≤ s.left ∧ t = s.advance count := by
  unfold skipBytes at h
  split at h
  · cases h
  · rename_i hlt
    cases h
    exact ⟨Nat.not_lt.mp hlt, rfl⟩

theorem skipField_of_payload {payload : Payload} (htype : tag.wireType? = some payload.wireType)
    (hpayload : payload.isWellFormed = true) (h : s.pending = payload.bytes ++ rest) :
    s.skipField tag = (.ok (), s.advance payload.bytes.length) := by
  rw [skipField, htype]
  cases payload with
  | varint bytes =>
    dsimp only [Payload.wireType, Payload.bytes] at h ⊢
    rw [readVarint64_of_encoding h hpayload]
    rfl
  | fixed64 bytes =>
    have hlength : bytes.length = 8 := of_decide_eq_true hpayload
    have hle := length_le_left h
    dsimp only [Payload.wireType, Payload.bytes] at hle ⊢
    rw [← hlength, skipBytes_of_le hle]
  | lengthDelimited length content =>
    rw [Payload.isWellFormed, Bool.and_eq_true, decide_eq_true_eq] at hpayload
    obtain ⟨hlength, hcontent⟩ := hpayload
    dsimp only [Payload.wireType, Payload.bytes] at h ⊢
    rw [List.append_assoc] at h
    have hle := length_le_left (pending_advance h)
    rw [readVarint32_of_encoding h hlength, Outcome.andThen, ← hcontent, skipBytes_of_le hle,
      advance_advance, List.length_append]
  | fixed32 bytes =>
    have hlength : bytes.length = 4 := of_decide_eq_true hpayload
    have hle := length_le_left h
    dsimp only [Payload.wireType, Payload.bytes] at hle ⊢
    rw [← hlength, skipBytes_of_le hle]

theorem payload_of_skipField (hs : s.InBounds) (h : s.skipField tag = (.ok (), t)) :
    ∃ (payload : Payload) (rest : Bytes),
      tag.wireType? = some payload.wireType ∧ payload.isWellFormed = true ∧
      s.pending = payload.bytes ++ rest ∧ t = s.advance payload.bytes.length := by
  unfold skipField at h
  split at h
  case h_1 htype =>
    obtain ⟨v, u, hread, h⟩ := Outcome.andThen_eq_ok h
    obtain ⟨front, rest, hpending, hfront, -, rfl⟩ := encoding_of_readVarint64 hread
    cases h
    exact ⟨.varint front, rest, htype, hfront, hpending, rfl⟩
  case h_2 htype =>
    obtain ⟨hle, rfl⟩ := le_left_of_skipBytes h
    obtain ⟨front, rest, hpending, hlength⟩ := hs.pending_split hle
    exact ⟨.fixed64 front, rest, htype, decide_eq_true hlength, hpending, by rw [← hlength]; rfl⟩
  case h_3 htype =>
    obtain ⟨length, u, hread, h⟩ := Outcome.andThen_eq_ok h
    obtain ⟨front, behind, hpending, hfront, rfl, rfl⟩ := encoding_of_readVarint32 hread
    obtain ⟨hle, rfl⟩ := le_left_of_skipBytes h
    obtain ⟨content, rest, hcontent, hlength⟩ := (hs.advance hpending).pending_split hle
    rw [pending_advance hpending] at hcontent
    refine ⟨.lengthDelimited front content, rest, htype, ?_, ?_, ?_⟩
    · rw [Payload.isWellFormed, hfront, hlength, decide_eq_true rfl, Bool.and_true]
    · rw [hpending, hcontent, Payload.bytes, List.append_assoc]
    · rw [advance_advance, Payload.bytes, List.length_append, hlength]
  case h_4 htype =>
    obtain ⟨hle, rfl⟩ := le_left_of_skipBytes h
    obtain ⟨front, rest, hpending, hlength⟩ := hs.pending_split hle
    exact ⟨.fixed32 front, rest, htype, decide_eq_true hlength, hpending, by rw [← hlength]; rfl⟩
  case h_5 => cases h

/-! ### The tag -/

theorem readTag_of_record {record : Record} (hrecord : record.isWellFormed = true)
    (h : s.pending = record.bytes ++ rest) :
    s.readTag = (.ok record.tag, s.advance record.head.length) := by
  obtain ⟨hhead, hnumber, -, -⟩ := record.isWellFormed_iff.mp hrecord
  rw [Record.bytes, List.append_assoc] at h
  exact readTag_of_encoding h hhead hnumber

theorem encoding_of_readTag (h : s.readTag = (.ok tag, t)) (hend : ¬ s.atEnd = true) :
    ∃ front rest, s.pending = front ++ rest ∧ Varint.isEncoding front = true ∧
      tag = Varint.word32 front ∧ t = s.advance front.length := by
  rw [readTag, if_neg hend] at h
  obtain ⟨word, u, hread, h⟩ := Outcome.andThen_eq_ok h
  split at h
  · cases h
  · cases h
    exact encoding_of_readVarint32 hread

theorem readTag_eq_zero_iff : s.readTag = (.ok 0, t) ↔ s.atEnd = true ∧ t = s := by
  constructor
  · intro h
    by_cases hend : s.atEnd = true
    · rw [readTag, if_pos hend] at h
      cases h
      exact ⟨hend, rfl⟩
    · exact absurd rfl (fieldNumber_of_readTag h hend)
  · rintro ⟨hend, rfl⟩
    rw [readTag, if_pos hend]

end Input
end EnumWire.Wire
