import EnumWire.Proofs.Codec.RoundTrip
import EnumWire.Proofs.Codec.Skipping

/-! # Two messages written one after the other

Reading both at once is reading the second over the first. Where elements of the same field stand on
both sides of the boundary, a run may go across it. This merges the messages, but for packed fields,
whose runs replace what the field held. -/
namespace EnumWire.Codec

open EnumWire.Wire

namespace Slot

theorem overlay_eq_merge (slot other : Slot) (h : slot.kind ≠ .packed) :
    slot.overlay other = slot.merge other := by
  cases slot with
  | singular n default value =>
    cases other with
    | singular m first value' => rw [overlay, merge, ite_not]
    | «repeated» m values => rfl
    | packed m values => rfl
  | «repeated» n values => cases other <;> rfl
  | packed n values => exact absurd rfl h

end Slot

namespace Content

variable {first second : Content}

theorem getElem?_overlay {i : Nat} {slot other : Slot} (hslot : first[i]? = some slot)
    (hother : second[i]? = some other) :
    (first.overlay second)[i]? = some (slot.overlay other) := by
  rw [overlay, List.getElem?_zipWith, hslot, hother]

theorem getElem?_merge {i : Nat} {slot other : Slot} (hslot : first[i]? = some slot)
    (hother : second[i]? = some other) : (first.merge second)[i]? = some (slot.merge other) := by
  rw [merge, List.getElem?_zipWith, hslot, hother]

/-- Messages of one type have slots of the same field in the same place. -/
theorem getElem?_of_initial_eq {i : Nat} {slot : Slot} (htype : first.initial = second.initial)
    (hslot : first[i]? = some slot) :
    ∃ other, second[i]? = some other ∧ slot.initial = other.initial := by
  have hmap := congrArg (fun content : Content => content[i]?) htype
  dsimp only [initial] at hmap
  rw [List.getElem?_map, List.getElem?_map, hslot, Option.map_some, eq_comm] at hmap
  obtain ⟨other, hother, hsame⟩ := Option.map_eq_some_iff.mp hmap
  exact ⟨other, hother, hsame.symm⟩

/-- A message written behind another one of its type is read over it. -/
theorem decode_two (htype : first.initial = second.initial) (hnumbers : first.WellNumbered)
    (hfirst : ∀ slot ∈ first, slot.payloadSize < 2 ^ 32)
    (hsecond : ∀ slot ∈ second, slot.payloadSize < 2 ^ 32) :
    decode first (first.encode ++ second.encode) = .ok (first.overlay second) := by
  have hs := Input.inBounds_ofBytes (first.encode ++ second.encode).toArray
  have hpending : (Input.ofBytes (first.encode ++ second.encode).toArray).pending =
      first.flatMap Slot.bytes ++ second.flatMap Slot.bytes := by
    rw [Input.pending_ofBytes, encode_eq, encode_eq]
  have hbehind := Input.pending_advance hpending
  rw [← List.append_nil (second.flatMap Slot.bytes)] at hbehind
  have hend := Input.pending_advance hbehind
  have hdone := (hs.advance hpending).advance hbehind
  have hnew : Content.WellNumbered ([] ++ first.initial) :=
    hnumbers.of_map_number first.map_number_initial
  have hfields : first.initial.initial = first.initial := by
    simp [initial, Slot.initial_initial]
  have hread := success?_readInto_bytes hnew hfields hfirst hpending
  have hold : Content.WellNumbered ([] ++ first) := hnumbers
  have hread' := success?_readInto_bytes hold htype hsecond hbehind
  rw [List.nil_append, List.nil_append, initial_overlay] at hread
  rw [List.nil_append, List.nil_append] at hread'
  rw [hread', readInto_of_pending_nil _ hdone hend] at hread
  rw [decode, Outcome.success?_eq_some_iff.mp hread]

/-- Two messages of one type, written one after the other, are read as the second merged into the
first: a value that differs from its default counts before, and elements follow elements. For a
packed field, the elements of the second replace those of the first, unless there are none. -/
theorem decode_encode_append (htype : first.initial = second.initial)
    (hnumbers : first.WellNumbered) (hfirst : ∀ slot ∈ first, slot.payloadSize < 2 ^ 32)
    (hsecond : ∀ slot ∈ second, slot.payloadSize < 2 ^ 32) :
    ∃ result, decode first (first.encode ++ second.encode) = .ok result ∧
      result.length = first.length ∧
      (∀ (i : Nat) (n : UInt32) (default value : Int32),
        first[i]? = some (.singular n default value) →
        ∃ other, second[i]? = some (.singular n default other) ∧
          result[i]? = (first.merge second)[i]? ∧
          result[i]? = some (.singular n default (if other ≠ default then other else value))) ∧
      (∀ (i : Nat) (n : UInt32) (values : List Int32), first[i]? = some (.repeated n values) →
        ∃ others, second[i]? = some (.repeated n others) ∧
          result[i]? = (first.merge second)[i]? ∧
          result[i]? = some (.repeated n (values ++ others))) ∧
      ∀ (i : Nat) (n : UInt32) (values : List Int32), first[i]? = some (.packed n values) →
        ∃ others, second[i]? = some (.packed n others) ∧
          result[i]? = some (.packed n (if others = [] then values else others)) := by
  have hlength : first.length = second.length := by
    simpa [initial] using congrArg List.length htype
  refine ⟨first.overlay second, decode_two htype hnumbers hfirst hsecond, ?_, ?_, ?_, ?_⟩
  · rw [overlay, List.length_zipWith, ← hlength, Nat.min_self]
  · intro i n default value hslot
    obtain ⟨other, hother, hfield⟩ := getElem?_of_initial_eq htype hslot
    cases other with
    | singular m first' other =>
      cases hfield
      have hkind : (Slot.singular n default value).kind ≠ .packed := by simp [Slot.kind]
      rw [getElem?_overlay hslot hother, getElem?_merge hslot hother,
        Slot.overlay_eq_merge _ _ hkind]
      exact ⟨other, hother, rfl, rfl⟩
    | «repeated» m others => cases hfield
    | packed m others => cases hfield
  · intro i n values hslot
    obtain ⟨other, hother, hfield⟩ := getElem?_of_initial_eq htype hslot
    cases other with
    | singular m first' other => cases hfield
    | «repeated» m others =>
      cases hfield
      rw [getElem?_overlay hslot hother, getElem?_merge hslot hother]
      exact ⟨others, hother, rfl, rfl⟩
    | packed m others => cases hfield
  · intro i n values hslot
    obtain ⟨other, hother, hfield⟩ := getElem?_of_initial_eq htype hslot
    cases other with
    | singular m first' other => cases hfield
    | «repeated» m others => cases hfield
    | packed m others =>
      cases hfield
      rw [getElem?_overlay hslot hother]
      exact ⟨others, hother, rfl⟩

/-- Another message of the type of `mixed`: a value at its default, elements that continue a run, an
empty packed field over one with elements and the other way around. -/
def mixedNext : Content :=
  [.singular 1 0 0, .repeated 2 [4, -5], .packed 536870911 [], .singular 7 5 (-6), .packed 16 [8]]

theorem decode_encode_append_mixed :
    (mixed.initial = mixedNext.initial ∧ mixed.WellNumbered ∧
      (∀ slot ∈ mixed, slot.payloadSize < 2 ^ 32) ∧
      ∀ slot ∈ mixedNext, slot.payloadSize < 2 ^ 32) ∧
    ∃ result, decode mixed (mixed.encode ++ mixedNext.encode) = .ok result ∧
      result[1]? = some (.repeated 2 [1, -2, 300, 4, -5]) ∧
      result[2]? = some (.packed 536870911 [0, -7, 2147483647]) := by
  have htype : mixed.initial = mixedNext.initial := by decide
  have hnumbers : mixed.WellNumbered := ⟨by decide, by simp [mixed, Slot.number, Tag.Fits]⟩
  have hfirst : ∀ slot ∈ mixed, slot.payloadSize < 2 ^ 32 := by decide
  have hsecond : ∀ slot ∈ mixedNext, slot.payloadSize < 2 ^ 32 := by decide
  obtain ⟨result, hread, -, -, hrepeated, hpacked⟩ :=
    decode_encode_append htype hnumbers hfirst hsecond
  obtain ⟨others, hothers, -, helements⟩ := hrepeated 1 2 [1, -2, 300] rfl
  obtain ⟨runs, hruns, hrun⟩ := hpacked 2 536870911 [0, -7, 2147483647] rfl
  cases hothers
  cases hruns
  exact ⟨⟨htype, hnumbers, hfirst, hsecond⟩, result, hread, helements, hrun⟩

end Content
end EnumWire.Codec
