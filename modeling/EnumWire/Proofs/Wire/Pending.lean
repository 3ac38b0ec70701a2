import EnumWire.Wire.Lookahead

/-! # The bytes before the limit

What a read answers depends on the bytes between the position and the limit alone. Each operation
of an input is described by what it takes off this list. -/
namespace EnumWire.Wire.Input

/-- The bytes between the position and the limit. -/
def pending (s : Input) : Bytes := (s.bytes.toList.drop s.pos).take s.left

variable {s : Input}

@[simp] theorem advance_zero (s : Input) : s.advance 0 = s := rfl

@[simp] theorem advance_advance (s : Input) (m n : Nat) :
    (s.advance m).advance n = s.advance (m + n) := by
  simp [advance, Nat.add_assoc]

@[simp] theorem left_advance (s : Input) (n : Nat) : (s.advance n).left = s.left - n := by
  simp only [left, advance]
  omega

theorem length_pending_le (s : Input) : s.pending.length ≤ s.left :=
  List.length_take_le _ _

theorem pending_of_atEnd (h : s.atEnd = true) : s.pending = [] := by
  have hpos : s.pos = s.limit := by simpa [atEnd] using h
  simp [pending, left, hpos]

theorem pending_advance {front rest : Bytes} (h : s.pending = front ++ rest) :
    (s.advance front.length).pending = rest := by
  have hdrop := congrArg (List.drop front.length) h
  rw [List.drop_left, pending, List.drop_take, List.drop_drop] at hdrop
  rw [pending, left_advance]
  exact hdrop

theorem readByte_of_pending {b : UInt8} {rest : Bytes} (h : s.pending = b :: rest) :
    s.readByte = (.ok b, s.advance 1) := by
  have hlt : s.pos < s.limit := by
    have hle := s.length_pending_le
    rw [h, List.length_cons, left] at hle
    omega
  have hget : s.bytes[s.pos]? = some b := by
    have hhead := congrArg (fun bytes : Bytes => bytes[0]?) h
    rw [pending, List.getElem?_take_of_lt (by rw [left]; omega)] at hhead
    simpa using hhead
  simp [readByte, hlt, hget]

theorem readByte_of_pending_nil (h : s.pending = []) :
    s.readByte = (.error (.truncated 1 0), s) := by
  unfold readByte
  split
  · rename_i hlt
    have hnone : s.bytes[s.pos]? = none := by
      rw [pending, List.take_eq_nil_iff, left] at h
      rcases h with hzero | hdrop
      · omega
      · rw [List.drop_eq_nil_iff, Array.length_toList] at hdrop
        exact Array.getElem?_eq_none hdrop
    rw [hnone]
  · rfl

theorem Reaches.rewind_eq {t : Input} (h : Reaches s t) : t.rewind s.pos = s := by
  cases s
  cases t
  obtain ⟨rfl, rfl, -, -⟩ := h
  rfl

/-! ### A limit set ahead -/

/-- The input behind a limit `count` bytes ahead. -/
def upTo (s : Input) (count : Nat) : Input := { s with limit := s.pos + count }

theorem pending_upTo {count : Nat} (h : count ≤ s.left) :
    (s.upTo count).pending = s.pending.take count := by
  rw [left] at h
  simp only [upTo, pending, left, Nat.add_sub_cancel_left, List.take_take]
  rw [Nat.min_eq_left h]

theorem pending_upTo_append {count : Nat} (h : count ≤ s.left) :
    s.pending = (s.upTo count).pending ++ s.pending.drop count := by
  rw [pending_upTo h, List.take_append_drop]

theorem length_le_left {run rest : Bytes} (h : s.pending = run ++ rest) : run.length ≤ s.left := by
  have hle := s.length_pending_le
  rw [h, List.length_append] at hle
  omega

theorem pending_upTo_length {run rest : Bytes} (h : s.pending = run ++ rest) :
    (s.upTo run.length).pending = run := by
  rw [pending_upTo (length_le_left h), h, List.take_left]

theorem pushLimit_of_le {count : Nat} (h : count ≤ s.left) :
    s.pushLimit count = (.ok s.limit, s.upTo count) := by
  rw [pushLimit, if_neg (Nat.not_lt.mpr h), upTo]

theorem le_left_of_pushLimit {count limit : Nat} {t : Input}
    (h : s.pushLimit count = (.ok limit, t)) :
    count ≤ s.left ∧ limit = s.limit ∧ t = s.upTo count := by
  unfold pushLimit at h
  split at h
  · cases h
  · rename_i hlt
    cases h
    exact ⟨Nat.not_lt.mp hlt, rfl, rfl⟩

/-! ### Inputs in bounds -/

/-- No position after the limit and no limit after the buffer. -/
structure InBounds (s : Input) : Prop where
  pos_le : s.pos ≤ s.limit
  limit_le : s.limit ≤ s.bytes.size

@[simp] theorem pending_ofBytes (bytes : Array UInt8) : (ofBytes bytes).pending = bytes.toList :=
  List.take_of_length_le (by simp [ofBytes, left])

theorem Reaches.inBounds {t : Input} (h : Reaches s t) (hs : s.InBounds) : t.InBounds where
  pos_le := by
    have hpos := hs.pos_le
    have hlimit := h.limit_eq
    have hwithin := h.within
    omega
  limit_le := by
    rw [h.limit_eq, h.bytes_eq]
    exact hs.limit_le

theorem InBounds.after {α : Type} {outcome : Outcome α} {answer : Except DecodeError α} {t : Input}
    (hs : s.InBounds) (h : Reaches s outcome.2) (houtcome : outcome = (answer, t)) : t.InBounds := by
  subst houtcome
  exact h.inBounds hs

theorem reaches_readTag (s : Input) : Reaches s s.readTag.2 := by
  by_cases hend : s.atEnd = true
  · rw [readTag, if_pos hend]
    exact Reaches.refl s
  · exact (advances_readTag (Bool.eq_false_iff.mpr hend)).reaches

end EnumWire.Wire.Input
