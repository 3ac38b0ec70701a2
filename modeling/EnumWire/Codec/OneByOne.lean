import EnumWire.Wire.Input

/-! # Reading elements without counting them

The values of an unpacked field that follow each other, read one at a time. The first tag of another
field is put back, for whoever reads it next. -/
namespace EnumWire.Codec

open EnumWire.Wire

/-- Appends to `read` the elements behind a tag that has been read. -/
def readOneByOne (tag : Tag) (read : List Int32) (s : Input) : Outcome (List Int32) :=
  match _ : s.readInt32 with
  | (.error e, t) => (.error e, t)
  | (.ok v, t) =>
    if t.atEnd then (.ok (read ++ [v]), t)
    else
      match _ : t.readTag with
      | (.error e, u) => (.error e, u)
      | (.ok next, u) =>
        if next = tag then readOneByOne tag (read ++ [v]) u
        else (.ok (read ++ [v]), u.rewind t.pos)
termination_by s.left
decreasing_by
  have h := Input.advances_readInt32 s
  have k := Input.advances_readTag (s := t) (Bool.eq_false_iff.mpr (by assumption))
  rw [‹s.readInt32 = _›] at h
  rw [‹t.readTag = _›] at k
  exact Nat.lt_trans (k.reaches.left_lt (k.moves rfl)) (h.reaches.left_lt (h.moves rfl))

theorem readOneByOne_eq (tag : Tag) (read : List Int32) (s : Input) :
    readOneByOne tag read s = s.readInt32.andThen fun v t =>
      if t.atEnd then (.ok (read ++ [v]), t)
      else t.readTag.andThen fun next u =>
        if next = tag then readOneByOne tag (read ++ [v]) u
        else (.ok (read ++ [v]), u.rewind t.pos) := by
  rw [readOneByOne]
  rcases s.readInt32 with ⟨_ | v, t⟩
  · rfl
  · simp only [Outcome.andThen]
    split
    · rfl
    · rcases t.readTag with ⟨_ | next, u⟩ <;> rfl

end EnumWire.Codec
