import EnumWire.Proofs.Codec.RoundTrip
import EnumWire.Proofs.Codec.Skipping

/-! # Elements written in the other encoding

A repeated field reads packed runs and a packed field reads elements with a tag each. Into an empty
list, both come out as they were written. -/
namespace EnumWire.Codec.Content

open EnumWire.Wire

variable {content result before after : Content} {n : UInt32} {values : List Int32}

theorem pending_ofBytes_toArray (bytes : Bytes) :
    (Input.ofBytes bytes.toArray).pending = bytes ++ [] := by
  rw [Input.pending_ofBytes, List.append_nil]

/-- A loop that is left with no bytes to read has read the message. -/
theorem readInto_of_advance {bytes : Bytes}
    (h : (readInto content (Input.ofBytes bytes.toArray)).success? =
      (readInto result ((Input.ofBytes bytes.toArray).advance bytes.length)).success?) :
    readInto content (Input.ofBytes bytes.toArray) =
      (.ok result, (Input.ofBytes bytes.toArray).advance bytes.length) := by
  have hpending := pending_ofBytes_toArray bytes
  have hdone := (Input.inBounds_ofBytes bytes.toArray).advance hpending
  rw [readInto_of_pending_nil _ hdone (Input.pending_advance hpending)] at h
  exact Outcome.success?_eq_some_iff.mp h

theorem encode_singleton (slot : Slot) : Content.encode [slot] = slot.bytes := by
  rw [encode_eq, List.flatMap_singleton]

theorem readInto_repeated_of_packed
    (hnumbers : (before ++ Slot.repeated n [] :: after).WellNumbered)
    (hpayload : Slot.elementsSize values < 2 ^ 32) :
    readInto (before ++ .repeated n [] :: after)
        (Input.ofBytes (Content.encode [.packed n values]).toArray) =
      (.ok (before ++ .repeated n values :: after),
        (Input.ofBytes (Content.encode [.packed n values]).toArray).advance
          (Content.encode [.packed n values]).length) := by
  apply readInto_of_advance
  rw [encode_singleton]
  by_cases hvalues : values = []
  · -- An empty list is not written.
    rw [hvalues, Slot.bytes_packed, if_pos rfl]
    rfl
  · have hfits : Tag.Fits n := hnumbers.fits_slot
    have hbefore := hnumbers.intake?_before .lengthDelimited
    have htake : (Slot.repeated n []).intake? (Tag.make n .lengthDelimited) =
        some (.packedRun false) :=
      Slot.intake?_alternateArm (.repeated n []) hfits rfl
    exact congrArg Outcome.success?
      (readInto_packedRun hfits hbefore htake hvalues hpayload (pending_ofBytes_toArray _))

theorem readInto_packed_of_repeated
    (hnumbers : (before ++ Slot.packed n [] :: after).WellNumbered) :
    readInto (before ++ .packed n [] :: after)
        (Input.ofBytes (Content.encode [.repeated n values]).toArray) =
      (.ok (before ++ .packed n values :: after),
        (Input.ofBytes (Content.encode [.repeated n values]).toArray).advance
          (Content.encode [.repeated n values]).length) := by
  apply readInto_of_advance
  rw [encode_singleton]
  have hfits : Tag.Fits n := hnumbers.fits_slot
  have hbefore := hnumbers.intake?_before .varint
  have htake : (Slot.packed n []).intake? (Tag.make n .varint) = some .elements :=
    Slot.intake?_alternateArm (.packed n []) hfits rfl
  exact success?_readInto_elements hfits hbefore htake (pending_ofBytes_toArray _)

end EnumWire.Codec.Content
