import EnumWire.Proofs.Wire.Guarded

/-! # The rounds of a count

Both counts are loops. A round ends the loop, or goes on with one more element and has then taken a
byte at least off the input for each of its reads. So the bytes before the limit bound the rounds and
the elements, whatever the bytes are. -/
namespace EnumWire.Wire

/-- How a round of a count ends. -/
inductive Round where
  | goesOn (s : Input)
  | ends (outcome : Outcome Nat)

namespace Round

/-- Goes on with the answer of a read, or ends with its failure. -/
def after {α : Type} (outcome : Outcome α) (next : α → Input → Round) : Round :=
  match outcome with
  | (.error e, s) => .ends (.error e, s)
  | (.ok a, s) => next a s

/-- Looks for the tag of the field and skips the value behind it. -/
def tagged (tag : Tag) (count : Nat) (s : Input) : Round :=
  if s.atEnd then .ends (.ok count, s)
  else after s.readTag fun next t =>
    if next ≠ tag then .ends (.ok count, t)
    else after (t.skipField tag) fun _ u => .goesOn u

def varint (count : Nat) (s : Input) : Round :=
  if s.atEnd then .ends (.ok count, s)
  else after s.readVarint64 fun _ t => .goesOn t

/-- Counts on with at most so many rounds, and has nothing for an answer when it takes more. -/
def countWithin (round : Nat → Input → Round) :
    (rounds : Nat) → (count : Nat) → Input → Option (Outcome Nat)
  | 0, _, _ => none
  | rounds + 1, count, s =>
    match round count s with
    | .goesOn t => countWithin round rounds (count + 1) t
    | .ends outcome => some outcome

/-- All that a round can come to: one more element, at the cost of so many bytes, the count as it is,
or a failure. -/
inductive Steps (stride count : Nat) (s : Input) : Round → Prop
  | goesOn {t : Input} (takes : t.left + stride ≤ s.left) : Steps stride count s (.goesOn t)
  | done {t : Input} : Steps stride count s (.ends (.ok count, t))
  | fails {e : DecodeError} {t : Input} : Steps stride count s (.ends (.error e, t))

theorem steps_tagged (tag : Tag) (count : Nat) (s : Input) :
    Steps 2 count s (tagged tag count s) := by
  unfold tagged
  split
  · exact .done
  · rename_i hend
    have hread := Input.advances_readTag (Bool.eq_false_iff.mpr hend)
    rcases htag : s.readTag with ⟨e | next, t⟩
    · exact .fails
    · dsimp only [after]
      split
      · exact .done
      · rcases hskip : t.skipField tag with ⟨e | v, u⟩
        · exact .fails
        · have hs := Guarded.left_lt_of_advances hread htag
          have ht := Guarded.left_lt_of_advances (Input.advances_skipField tag t) hskip
          exact .goesOn (by omega)

theorem steps_varint (count : Nat) (s : Input) : Steps 1 count s (varint count s) := by
  unfold varint
  split
  · exact .done
  · rcases hread : s.readVarint64 with ⟨e | v, t⟩
    · exact .fails
    · exact .goesOn (Guarded.left_lt_of_advances (Input.advances_readVarint64 s) hread)

/-- A loop that is made of rounds. -/
structure Drives (round : Nat → Input → Round) (loop : Nat → Input → Outcome Nat)
    (stride : Nat) : Prop where
  stride_pos : 0 < stride
  steps : ∀ count s, Steps stride count s (round count s)
  loop_eq : ∀ count s, loop count s =
    match round count s with
    | .goesOn t => loop (count + 1) t
    | .ends outcome => outcome

theorem tagged_drives (tag : Tag) : Drives (tagged tag) (Input.countTagged tag) 2 where
  stride_pos := Nat.zero_lt_two
  steps := steps_tagged tag
  loop_eq count s := by
    rw [Input.countTagged_eq, tagged]
    split
    · rfl
    · rcases s.readTag with ⟨e | next, t⟩
      · rfl
      · simp only [Outcome.andThen, after]
        split
        · rfl
        · rcases t.skipField tag with ⟨e | v, u⟩
          · rfl
          · rfl

theorem varint_drives : Drives varint Input.countVarints 1 where
  stride_pos := Nat.zero_lt_one
  steps := steps_varint
  loop_eq count s := by
    rw [Input.countVarints_eq, varint]
    split
    · rfl
    · rcases s.readVarint64 with ⟨e | v, t⟩
      · rfl
      · rfl

/-! ### The bytes bound the rounds and the elements -/

section
variable {round : Nat → Input → Round} {loop : Nat → Input → Outcome Nat}
variable {s t : Input} {count total stride : Nat}

theorem Drives.left_of_goesOn (hloop : Drives round loop stride) (h : round count s = .goesOn t) :
    t.left + stride ≤ s.left := by
  have hstep := hloop.steps count s
  rw [h] at hstep
  cases hstep with
  | goesOn takes => exact takes

theorem Drives.countWithin_eq (hloop : Drives round loop stride) {rounds : Nat}
    (h : s.left < stride * rounds) : countWithin round rounds count s = some (loop count s) := by
  induction rounds generalizing count s with
  | zero => exact absurd h (Nat.not_lt_zero _)
  | succ rounds ih =>
    rw [countWithin, hloop.loop_eq]
    cases hround : round count s with
    | ends outcome => rfl
    | goesOn t =>
      have htakes := hloop.left_of_goesOn hround
      rw [Nat.mul_succ] at h
      exact ih (by omega)

theorem Drives.total_le (hloop : Drives round loop stride) (h : loop count s = (.ok total, t)) :
    count ≤ total ∧ stride * total ≤ stride * count + s.left := by
  induction hleft : s.left using Nat.strongRecOn generalizing count s with
  | ind left ih =>
    have hstep := hloop.steps count s
    rw [hloop.loop_eq] at h
    cases hround : round count s with
    | ends outcome =>
      rw [hround] at h hstep
      subst h
      cases hstep with
      | done => exact ⟨Nat.le_refl _, Nat.le_add_right _ _⟩
    | goesOn u =>
      rw [hround] at h
      have htakes := hloop.left_of_goesOn hround
      have hpos := hloop.stride_pos
      obtain ⟨hcount, htotal⟩ := ih u.left (by omega) h rfl
      rw [Nat.mul_succ] at htotal
      exact ⟨Nat.le_of_succ_le hcount, by omega⟩

end
end Round

namespace Input

variable {s : Input} {tag : Tag} {count rounds : Nat}

/-- The count of tagged values with at most so many rounds. -/
def countUnpackedWithin (rounds : Nat) (tag : Tag) : Input → Option (Outcome Nat) :=
  Guarded.peek fun s =>
    Guarded.andThen (some (s.skipField tag)) fun _ t =>
      Round.countWithin (Round.tagged tag) rounds 1 t

/-- The count of varints with at most so many rounds. -/
def countPackedWithin (rounds : Nat) : Input → Option (Outcome Nat) :=
  Guarded.peek (Round.countWithin Round.varint rounds 0)

theorem countUnpackedWithin_eq (h : s.left < 2 * rounds) :
    countUnpackedWithin rounds tag s = some (s.countUnpacked tag) := by
  have hskip := advances_skipField tag s
  apply Guarded.peek_eq
  · apply Guarded.andThen_some
    intro v t ht
    have hlt := Guarded.left_lt_of_advances hskip ht
    exact (Round.tagged_drives tag).countWithin_eq (Nat.lt_trans hlt h)
  · exact (hskip.andThen fun _ _ => reaches_countTagged tag 1 _).reaches

theorem countPackedWithin_eq (h : s.left < rounds) :
    countPackedWithin rounds s = some s.countPacked := by
  apply Guarded.peek_eq
  · exact Round.varint_drives.countWithin_eq (by omega)
  · exact reaches_countVarints 0 s

/-- The first value takes one byte at least, and each one after it takes its tag besides. -/
theorem countUnpacked_le (h : (s.countUnpacked tag).1 = .ok count) :
    1 ≤ count ∧ 2 * count - 1 ≤ s.left := by
  simp only [countUnpacked, peek] at h
  obtain ⟨v, t, hskip, htotal⟩ := Outcome.andThen_eq_ok (Prod.ext h rfl)
  have hlt := Guarded.left_lt_of_advances (advances_skipField tag s) hskip
  obtain ⟨hpos, hle⟩ := (Round.tagged_drives tag).total_le htotal
  exact ⟨hpos, by omega⟩

-- Texts without content behind tags of one byte meet the bound.
example : ((ofBytes #[0, 0x0a, 0, 0x0a, 0]).countUnpacked 0x0a).1 = .ok 3 := by cbv

theorem countPacked_le (h : s.countPacked.1 = .ok count) : count ≤ s.left := by
  have hle := (Round.varint_drives.total_le (Prod.ext h rfl)).2
  omega

theorem countPacked_eq_zero_iff (h : s.countPacked.1 = .ok count) : count = 0 ↔ s.atEnd = true := by
  simp only [countPacked, peek] at h
  rw [countVarints_eq] at h
  by_cases hend : s.atEnd = true
  · rw [if_pos hend] at h
    exact iff_of_true (Except.ok.inj h).symm hend
  · rw [if_neg hend] at h
    obtain ⟨v, t, -, htotal⟩ := Outcome.andThen_eq_ok (Prod.ext h rfl)
    have hpos := (Round.varint_drives.total_le htotal).1
    exact iff_of_false (by omega) hend

end Input
end EnumWire.Wire
