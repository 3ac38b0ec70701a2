import EnumWire.Codec.Slot
import EnumWire.Wire.Lookahead

/-! # Reading messages

A loop reads a tag and lets the first arm with that tag read on, or skips what no arm takes, until
the input is at its limit. Elements are counted before they are read. A failed read ends the loop. -/
namespace EnumWire.Codec

open EnumWire.Wire

namespace Intake

/-- Reads a number of elements without tags. -/
def readPlain : Nat → Input → Outcome (List Int32)
  | 0, s => (.ok [], s)
  | count + 1, s =>
    s.readInt32.andThen fun v s =>
      (readPlain count s).andThen fun vs s => (.ok (v :: vs), s)

/-- Reads a number of elements with a tag between any two; the tags are not looked at. -/
def readTagged : Nat → Input → Outcome (List Int32)
  | 0, s => s.readInt32.andThen fun v s => (.ok [v], s)
  | more + 1, s =>
    s.readInt32.andThen fun v s =>
      s.readTag.andThen fun _ s =>
        (readTagged more s).andThen fun vs s => (.ok (v :: vs), s)

/-- Reads the elements behind a tag, as many as follow each other with it. -/
def readElements (tag : Tag) (s : Input) : Outcome (List Int32) :=
  (s.countUnpacked tag).andThen fun count s => readTagged (count - 1) s

def readPackedRun (s : Input) : Outcome (List Int32) :=
  s.readVarint32.andThen fun length s =>
    (s.pushLimit length.toNat).andThen fun limit s =>
      s.countPacked.andThen fun count s =>
        (readPlain count s).andThen fun vs s => (.ok vs, s.popLimit limit)

/-- What an arm of a field with this number reads. -/
def read (number : UInt32) : Intake → Input → Outcome (List Int32)
  | .value, s => s.readInt32.andThen fun v s => (.ok [v], s)
  | .elements, s => readElements (Tag.make number .varint) s
  | .packedRun _, s => readPackedRun s

end Intake

namespace Slot

/-- Takes over what an arm has read. -/
def receive (intake : Intake) (read : List Int32) : Slot → Slot
  | .singular n default value => .singular n default (read.getLast?.getD value)
  | .repeated n values => .repeated n (if intake = .packedRun true then read else values ++ read)
  | .packed n values => .packed n (if intake = .packedRun true then read else values ++ read)

/-- How a slot takes what follows a tag, if it does. -/
def intake? (tag : Tag) (slot : Slot) : Option Intake :=
  (slot.arms.find? fun arm => arm.tag = tag).map Arm.intake

end Slot

namespace Content

/-- Reads what follows a tag into the first slot that takes it, or skips it. -/
def dispatch (tag : Tag) : Content → Input → Outcome Content
  | [], s => (s.skipField tag).andThen fun _ s => (.ok [], s)
  | slot :: rest, s =>
    match slot.intake? tag with
    | some intake =>
      (Codec.Intake.read slot.number intake s).andThen fun vs s => (.ok (slot.receive intake vs :: rest), s)
    | none => (dispatch tag rest s).andThen fun rest s => (.ok (slot :: rest), s)

end Content

/-! ### Where a read leaves the input -/

namespace Intake

theorem reaches_readPlain {count : Nat} {s t : Input} {vs : List Int32}
    (h : readPlain count s = (.ok vs, t)) : Input.Reaches s t := by
  induction count generalizing s vs with
  | zero =>
    simp only [readPlain, Prod.mk.injEq] at h
    exact h.2 ▸ Input.Reaches.refl s
  | succ count ih =>
    obtain ⟨v, u, hv, h⟩ := Outcome.andThen_eq_ok h
    obtain ⟨ws, w, hw, h⟩ := Outcome.andThen_eq_ok h
    cases h
    have := (Input.advances_readInt32 s).reaches
    rw [hv] at this
    exact this.trans (ih hw)

theorem reaches_readTag {s t : Input} {tag : Tag} (h : s.readTag = (.ok tag, t)) :
    Input.Reaches s t := by
  by_cases hend : s.atEnd = true
  · simp only [Input.readTag, hend, if_true, Prod.mk.injEq] at h
    exact h.2 ▸ Input.Reaches.refl s
  · have := (Input.advances_readTag (Bool.eq_false_iff.mpr hend)).reaches
    rwa [h] at this

theorem reaches_readTagged {more : Nat} {s t : Input} {vs : List Int32}
    (h : readTagged more s = (.ok vs, t)) : Input.Reaches s t := by
  induction more generalizing s vs with
  | zero =>
    obtain ⟨v, u, hv, h⟩ := Outcome.andThen_eq_ok h
    cases h
    have := (Input.advances_readInt32 s).reaches
    rwa [hv] at this
  | succ more ih =>
    obtain ⟨v, u, hv, h⟩ := Outcome.andThen_eq_ok h
    obtain ⟨tag, w, hw, h⟩ := Outcome.andThen_eq_ok h
    obtain ⟨ws, x, hx, h⟩ := Outcome.andThen_eq_ok h
    cases h
    have := (Input.advances_readInt32 s).reaches
    rw [hv] at this
    exact (this.trans (reaches_readTag hw)).trans (ih hx)

theorem reaches_readElements {tag : Tag} {s t : Input} {vs : List Int32}
    (h : readElements tag s = (.ok vs, t)) : Input.Reaches s t := by
  obtain ⟨count, u, hu, h⟩ := Outcome.andThen_eq_ok h
  have hus : u = s := by simpa [hu] using Input.countUnpacked_snd tag s
  exact hus ▸ reaches_readTagged h

theorem reaches_readPackedRun {s t : Input} {vs : List Int32}
    (h : readPackedRun s = (.ok vs, t)) : Input.Reaches s t := by
  obtain ⟨length, u, hu, h⟩ := Outcome.andThen_eq_ok h
  obtain ⟨limit, v, hv, h⟩ := Outcome.andThen_eq_ok h
  obtain ⟨count, w, hw, h⟩ := Outcome.andThen_eq_ok h
  obtain ⟨ws, x, hx, h⟩ := Outcome.andThen_eq_ok h
  cases h
  have hsu := (Input.advances_readVarint32 s).reaches
  rw [hu] at hsu
  have hwv : w = v := by simpa [hw] using Input.countPacked_snd v
  subst hwv
  have hwx := reaches_readPlain hx
  unfold Input.pushLimit at hv
  split at hv
  · simp at hv
  · rename_i hfits
    simp only [Prod.mk.injEq, Except.ok.injEq] at hv
    obtain ⟨rfl, rfl⟩ := hv
    have hb := hwx.bytes_eq
    have hp := hwx.pos_le
    have hin := hwx.within
    refine hsu.trans ⟨hb, rfl, hp, ?_⟩
    simp only [Input.left, Nat.not_lt, Input.popLimit] at *
    omega

theorem reaches_read {number : UInt32} {intake : Intake} {s t : Input} {vs : List Int32}
    (h : read number intake s = (.ok vs, t)) : Input.Reaches s t := by
  cases intake with
  | value => exact @reaches_readTagged 0 _ _ _ h
  | elements => exact reaches_readElements h
  | packedRun replaces => exact reaches_readPackedRun h

end Intake

namespace Content

theorem reaches_dispatch {tag : Tag} {content result : Content} {s t : Input}
    (h : dispatch tag content s = (.ok result, t)) : Input.Reaches s t := by
  induction content generalizing result with
  | nil =>
    obtain ⟨a, u, hu, h⟩ := Outcome.andThen_eq_ok h
    cases h
    have := (Input.advances_skipField tag s).reaches
    rwa [hu] at this
  | cons slot rest ih =>
    unfold dispatch at h
    split at h
    · obtain ⟨vs, u, hu, h⟩ := Outcome.andThen_eq_ok h
      cases h
      exact Intake.reaches_read hu
    · obtain ⟨more, u, hu, h⟩ := Outcome.andThen_eq_ok h
      cases h
      exact ih hu

/-- Reads records into a content until the tag read is 0, which it is at the limit only. -/
def readInto (content : Content) (s : Input) : Outcome Content :=
  match _ : s.readTag with
  | (.error e, t) => (.error e, t)
  | (.ok tag, t) =>
    if tag = 0 then (.ok content, t)
    else
      match _ : dispatch tag content t with
      | (.error e, u) => (.error e, u)
      | (.ok next, u) => readInto next u
termination_by s.left
decreasing_by
  have hend : s.atEnd = false := by
    refine Bool.eq_false_iff.mpr fun hend => ?_
    have h := ‹s.readTag = _›
    simp only [Input.readTag, hend, if_true, Prod.mk.injEq, Except.ok.injEq] at h
    exact absurd h.1.symm (by assumption)
  have h := Input.advances_readTag hend
  rw [‹s.readTag = _›] at h
  have k := reaches_dispatch ‹dispatch tag content t = _›
  exact (h.reaches.trans k).left_lt (Nat.lt_of_lt_of_le (h.moves rfl) k.pos_le)

theorem readInto_eq (content : Content) (s : Input) :
    readInto content s = s.readTag.andThen fun tag t =>
      if tag = 0 then (.ok content, t) else (dispatch tag content t).andThen readInto := by
  rw [readInto]
  rcases s.readTag with ⟨_ | tag, t⟩
  · rfl
  · simp only [Outcome.andThen]
    split
    · rfl
    · rcases dispatch tag content t with ⟨_ | next, u⟩ <;> rfl

/-- Reads a whole buffer into a new message with these slots. -/
def decode (content : Content) (bytes : Bytes) : Except DecodeError Content :=
  (readInto content.initial (Input.ofBytes bytes.toArray)).1

end Content
end EnumWire.Codec
