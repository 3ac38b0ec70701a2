import EnumWire.Proofs.Codec.Skipping
import EnumWire.Proofs.Wire.Rounds

/-! # Room for elements

Elements are counted to make room for them at once. The same reads once more, with nothing for an
answer where room is asked for more elements than there are bytes before the limit, or where a turn
of the loop would not come nearer to the limit. No input leads there. -/
namespace EnumWire.Codec.Reserving

open EnumWire.Wire

/-- Makes room for so many elements, where there are as many bytes. -/
def reserve {α : Type} (count : Nat) (s : Input) (outcome : Outcome α) : Option (Outcome α) :=
  if s.left < count then none else some outcome

def readElements (tag : Tag) (s : Input) : Option (Outcome (List Int32)) :=
  Guarded.andThen (some (s.countUnpacked tag)) fun count s =>
    reserve count s (Intake.readTagged (count - 1) s)

def readPackedRun (s : Input) : Option (Outcome (List Int32)) :=
  Guarded.andThen (some s.readVarint32) fun length s =>
    Guarded.andThen (some (s.pushLimit length.toNat)) fun limit s =>
      Guarded.andThen (some s.countPacked) fun count s =>
        reserve count s ((Intake.readPlain count s).andThen fun vs s => (.ok vs, s.popLimit limit))

def read (number : UInt32) : Intake → Input → Option (Outcome (List Int32))
  | .value, s => some (Intake.read number .value s)
  | .elements, s => readElements (Tag.make number .varint) s
  | .packedRun _, s => readPackedRun s

def dispatch (tag : Tag) : Content → Input → Option (Outcome Content)
  | [], s => some ((s.skipField tag).andThen fun _ s => (.ok [], s))
  | slot :: rest, s =>
    match slot.intake? tag with
    | some intake =>
      Guarded.andThen (read slot.number intake s) fun vs s =>
        some (.ok (slot.receive intake vs :: rest), s)
    | none =>
      Guarded.andThen (dispatch tag rest s) fun rest s => some (.ok (slot :: rest), s)

def readInto (content : Content) (s : Input) : Option (Outcome Content) :=
  match s.readTag with
  | (.error e, t) => some (.error e, t)
  | (.ok tag, t) =>
    if tag = 0 then some (.ok content, t)
    else
      match dispatch tag content t with
      | none => none
      | some (.error e, u) => some (.error e, u)
      | some (.ok next, u) => if u.left < s.left then readInto next u else none
termination_by s.left

/-! ### All room is there -/

variable {tag : Tag} {s : Input}

theorem reserve_of_le {α : Type} {count : Nat} (h : count ≤ s.left) (outcome : Outcome α) :
    reserve count s outcome = some outcome :=
  if_neg (Nat.not_lt.mpr h)

theorem readElements_eq (tag : Tag) (s : Input) :
    readElements tag s = some (Intake.readElements tag s) := by
  apply Guarded.andThen_some
  intro count t hcount
  have hle := Input.countUnpacked_le (congrArg Prod.fst hcount)
  obtain rfl : t = s := by rw [← Input.countUnpacked_snd tag s, hcount]
  exact reserve_of_le (by omega) _

theorem readPackedRun_eq (s : Input) : readPackedRun s = some (Intake.readPackedRun s) := by
  apply Guarded.andThen_some
  intro length t _
  apply Guarded.andThen_some
  intro limit u _
  apply Guarded.andThen_some
  intro count v hcount
  have hle := Input.countPacked_le (congrArg Prod.fst hcount)
  obtain rfl : v = u := by rw [← Input.countPacked_snd u, hcount]
  exact reserve_of_le hle _

theorem read_eq (number : UInt32) (intake : Intake) (s : Input) :
    read number intake s = some (Intake.read number intake s) := by
  cases intake with
  | value => rfl
  | elements => exact readElements_eq _ s
  | packedRun replaces => exact readPackedRun_eq s

theorem dispatch_eq (tag : Tag) (content : Content) (s : Input) :
    dispatch tag content s = some (Content.dispatch tag content s) := by
  induction content with
  | nil => rfl
  | cons slot rest ih =>
    rw [dispatch, Content.dispatch]
    cases slot.intake? tag with
    | some intake =>
      dsimp only
      rw [read_eq]
      exact Guarded.andThen_some fun vs t _ => rfl
    | none =>
      dsimp only
      rw [ih]
      exact Guarded.andThen_some fun rest t _ => rfl

theorem readInto_eq (content : Content) (s : Input) :
    readInto content s = some (Content.readInto content s) := by
  fun_induction Content.readInto content s with
  | case1 content s e t htag => rw [readInto, htag]
  | case2 content s t htag => rw [readInto, htag]; rfl
  | case3 content s tag t htag hne e u hdispatch =>
    rw [readInto, htag]
    dsimp only
    rw [if_neg hne, dispatch_eq, hdispatch]
  | case4 content s tag t htag hne next u hdispatch ih =>
    have hlt := Content.left_lt_of_turn htag hne hdispatch
    rw [readInto, htag]
    dsimp only
    rw [if_neg hne, dispatch_eq, hdispatch]
    dsimp only
    rw [if_pos hlt]
    exact ih

/-- Both counts leave the input as it was, whether they succeed or fail. The count of tagged values is
over after a round for every two bytes before the limit and one more, that of varints after a round
for every byte and one more, and in bounds nothing stops them. A field whose first tag has been read
has one value at least, and no more than fit into the bytes before the limit with the tags between
them; a packed run has no more values than there are bytes, and none at the limit only. So no message
is read with more room asked for than there are bytes left. -/
theorem counts_fit_left (tag : Tag) (s : Input) :
    (s.countUnpacked tag).2 = s ∧ s.countPacked.2 = s ∧
    Input.countUnpackedWithin (s.left / 2 + 1) tag s = some (s.countUnpacked tag) ∧
    Input.countPackedWithin (s.left + 1) s = some s.countPacked ∧
    (s.InBounds → Guarded.countUnpacked tag s = some (s.countUnpacked tag) ∧
      Guarded.countPacked s = some s.countPacked) ∧
    (∀ count, (s.countUnpacked tag).1 = .ok count → 1 ≤ count ∧ 2 * count - 1 ≤ s.left) ∧
    (∀ count, s.countPacked.1 = .ok count → count ≤ s.left ∧ (count = 0 ↔ s.atEnd = true)) ∧
    ∀ content, readInto content s = some (Content.readInto content s) := by
  refine ⟨Input.countUnpacked_snd tag s, Input.countPacked_snd s, ?_, ?_, ?_, ?_, ?_, ?_⟩
  · exact Input.countUnpackedWithin_eq (by omega)
  · exact Input.countPackedWithin_eq (Nat.lt_succ_self _)
  · exact fun h => ⟨Guarded.countUnpacked_eq tag h, Guarded.countPacked_eq h⟩
  · exact fun count h => Input.countUnpacked_le h
  · exact fun count h => ⟨Input.countPacked_le h, Input.countPacked_eq_zero_iff h⟩
  · exact fun content => readInto_eq content s

end EnumWire.Codec.Reserving
