import EnumWire.Wire.Input

/-! # Counting elements ahead of reading them

Both counts leave the input where they found it, whether they succeed or fail. Each round of a count
consumes at least one byte, so the bytes left before the limit bound the number of rounds. -/
namespace EnumWire.Wire.Input

/-- A read followed by going back to where it began. -/
def peek {α : Type} (read : Input → Outcome α) (s : Input) : Outcome α :=
  let (answer, after) := read s
  (answer, after.rewind s.pos)

/-- Counts on from `count` values of the field with this tag, up to the first other tag. -/
def countTagged (tag : Tag) (count : Nat) (s : Input) : Outcome Nat :=
  if s.atEnd then (.ok count, s)
  else match _ : s.readTag with
    | (.error e, t) => (.error e, t)
    | (.ok next, t) =>
      if next ≠ tag then (.ok count, t)
      else match _ : t.skipField tag with
        | (.error e, u) => (.error e, u)
        | (.ok _, u) => countTagged tag (count + 1) u
termination_by s.left
decreasing_by
  have h := advances_readTag (s := s) (Bool.eq_false_iff.mpr (by assumption))
  have k := advances_skipField tag t
  rw [‹s.readTag = _›] at h
  rw [‹t.skipField tag = _›] at k
  exact Nat.lt_trans (k.reaches.left_lt (k.moves rfl)) (h.reaches.left_lt (h.moves rfl))

/-- The number of consecutive values of a field whose first tag has been read, at least one. -/
def countUnpacked (tag : Tag) : Input → Outcome Nat :=
  peek fun s => (s.skipField tag).andThen fun _ s => countTagged tag 1 s

/-- Counts on from `count` varints up to the limit. -/
def countVarints (count : Nat) (s : Input) : Outcome Nat :=
  if s.atEnd then (.ok count, s)
  else match _ : s.readVarint64 with
    | (.error e, t) => (.error e, t)
    | (.ok _, t) => countVarints (count + 1) t
termination_by s.left
decreasing_by
  have h := advances_readVarint64 s
  rw [‹s.readVarint64 = _›] at h
  exact h.reaches.left_lt (h.moves rfl)

/-- The number of varints left before the limit, as pushed for a packed run. -/
def countPacked : Input → Outcome Nat :=
  peek (countVarints 0)

theorem countTagged_eq (tag : Tag) (count : Nat) (s : Input) :
    countTagged tag count s =
      if s.atEnd then (.ok count, s)
      else s.readTag.andThen fun next t =>
        if next ≠ tag then (.ok count, t)
        else (t.skipField tag).andThen fun _ u => countTagged tag (count + 1) u := by
  rw [countTagged]
  split
  · rfl
  · rcases s.readTag with ⟨_ | next, t⟩
    · rfl
    · simp only [Outcome.andThen]
      split
      · rfl
      · rcases t.skipField tag with ⟨_ | _, u⟩ <;> rfl

theorem countVarints_eq (count : Nat) (s : Input) :
    countVarints count s =
      if s.atEnd then (.ok count, s)
      else s.readVarint64.andThen fun _ t => countVarints (count + 1) t := by
  rw [countVarints]
  split
  · rfl
  · rcases s.readVarint64 with ⟨_ | _, t⟩ <;> rfl

/-! ### Where a count leaves the input -/

theorem reaches_countTagged (tag : Tag) (count : Nat) (s : Input) :
    Reaches s (countTagged tag count s).2 := by
  fun_induction countTagged tag count s with
  | case1 => exact Reaches.refl _
  | case2 count s hend e t h =>
    have := advances_readTag (s := s) (Bool.eq_false_iff.mpr hend)
    rw [h] at this
    exact this.reaches
  | case3 count s hend next t h =>
    have := advances_readTag (s := s) (Bool.eq_false_iff.mpr hend)
    rw [h] at this
    exact this.reaches
  | case4 count s hend next t h _ e u k =>
    have hs := advances_readTag (s := s) (Bool.eq_false_iff.mpr hend)
    have ht := advances_skipField tag t
    rw [h] at hs
    rw [k] at ht
    exact hs.reaches.trans ht.reaches
  | case5 count s hend next t h _ a u k ih =>
    have hs := advances_readTag (s := s) (Bool.eq_false_iff.mpr hend)
    have ht := advances_skipField tag t
    rw [h] at hs
    rw [k] at ht
    exact (hs.reaches.trans ht.reaches).trans ih

theorem reaches_countVarints (count : Nat) (s : Input) : Reaches s (countVarints count s).2 := by
  fun_induction countVarints count s with
  | case1 => exact Reaches.refl _
  | case2 count s _ e t h =>
    have := advances_readVarint64 s
    rw [h] at this
    exact this.reaches
  | case3 count s _ a t h ih =>
    have := advances_readVarint64 s
    rw [h] at this
    exact this.reaches.trans ih

theorem peek_snd {α : Type} {read : Input → Outcome α} {s : Input} (h : Reaches s (read s).2) :
    (peek read s).2 = s := by
  have hb := h.bytes_eq
  have hl := h.limit_eq
  simp only [peek, rewind]
  cases s
  simp_all

theorem countUnpacked_snd (tag : Tag) (s : Input) : (s.countUnpacked tag).2 = s := by
  refine peek_snd (Advances.andThen (advances_skipField tag s) fun _ _ => ?_).reaches
  exact reaches_countTagged _ _ _

theorem countPacked_snd (s : Input) : s.countPacked.2 = s :=
  peek_snd (reaches_countVarints 0 s)

end EnumWire.Wire.Input
