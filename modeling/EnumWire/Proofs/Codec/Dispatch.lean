import EnumWire.Proofs.Codec.Elements
import EnumWire.Proofs.Wire.VarintReading

/-! # One turn of the reading loop

A tag leads to the one slot of its number. Behind a tag of elements the loop may as well take a
single value and go on: it meets the same tag again and continues the run. -/
namespace EnumWire.Wire.Outcome

/-- The answer of a read that succeeds, with the input after it. -/
def success? {α : Type} : Outcome α → Option (α × Input)
  | (.ok a, s) => some (a, s)
  | (.error _, _) => none

variable {α : Type} {outcome : Outcome α} {a : α} {s : Input}

theorem success?_eq_some_iff : outcome.success? = some (a, s) ↔ outcome = (.ok a, s) := by
  obtain ⟨e | b, t⟩ := outcome
  · simp [success?]
  · simp [success?]

end EnumWire.Wire.Outcome

namespace EnumWire

/-- The wire type of the tags that announce what an intake reads. -/
def Intake.wireType : Intake → Wire.WireType
  | .packedRun _ => .lengthDelimited
  | _ => .varint

/-- The tag of an arm tells where it reads and what announces it. -/
theorem FieldKind.tag_of_mem_arms {kind : FieldKind} {number : UInt32} {arm : Arm}
    (h : arm ∈ kind.arms number) : arm.tag = Wire.Tag.make number arm.intake.wireType := by
  cases kind with
  | singular =>
    cases List.mem_singleton.mp h
    rfl
  | «repeated» =>
    rcases List.mem_cons.mp h with rfl | h
    · rfl
    · cases List.mem_singleton.mp h
      rfl
  | packed =>
    rcases List.mem_cons.mp h with rfl | h
    · rfl
    · cases List.mem_singleton.mp h
      rfl

namespace Codec

open EnumWire.Wire

/-! ### The arms of a slot -/

namespace Slot

variable {slot : Slot} {tag : Tag} {number : UInt32} {intake : Intake}

theorem mem_arms_of_intake? (h : slot.intake? tag = some intake) : ⟨tag, intake⟩ ∈ slot.arms := by
  obtain ⟨arm, harm, rfl⟩ := Option.map_eq_some_iff.mp h
  have htag := List.find?_some harm
  rw [← of_decide_eq_true htag]
  exact List.mem_of_find?_eq_some harm

theorem tag_of_intake? (h : slot.intake? tag = some intake) :
    tag = Tag.make slot.number intake.wireType :=
  FieldKind.tag_of_mem_arms (mem_arms_of_intake? h)

theorem intake?_of_ne (hslot : Tag.Fits slot.number) (hnumber : Tag.Fits number)
    (hne : slot.number ≠ number) (w : WireType) : slot.intake? (Tag.make number w) = none := by
  cases htake : slot.intake? (Tag.make number w) with
  | none => rfl
  | some intake =>
    have hmake := (Tag.make_eq_make_iff hnumber hslot w intake.wireType).mp (tag_of_intake? htake)
    exact absurd hmake.1.symm hne

theorem intake?_declaredArm (slot : Slot) :
    slot.intake? (Tag.make slot.number slot.kind.wireType) =
      some (slot.kind.declaredArm slot.number).intake := by
  have htag : (slot.kind.declaredArm slot.number).tag = Tag.make slot.number slot.kind.wireType := rfl
  simp [intake?, arms, FieldKind.arms, htag]

theorem intake?_alternateArm (slot : Slot) {arm : Arm} (hfits : Tag.Fits slot.number)
    (h : slot.kind.alternateArm? slot.number = some arm) :
    slot.intake? arm.tag = some arm.intake := by
  have hother (v w : WireType) (hne : v ≠ w) : Tag.make slot.number v ≠ Tag.make slot.number w :=
    fun heq => hne ((Tag.make_eq_make_iff hfits hfits v w).mp heq).2
  cases slot with
  | singular n default value => cases h
  | «repeated» n values =>
    cases h
    simp [intake?, arms, kind, FieldKind.arms, FieldKind.declaredArm, FieldKind.alternateArm?,
      FieldKind.wireType, hother .varint .lengthDelimited (by decide)]
  | packed n values =>
    cases h
    simp [intake?, arms, kind, FieldKind.arms, FieldKind.declaredArm, FieldKind.alternateArm?,
      FieldKind.wireType, hother .lengthDelimited .varint (by decide)]

@[simp] theorem number_receive (intake : Intake) (vs : List Int32) (slot : Slot) :
    (slot.receive intake vs).number = slot.number := by
  cases slot <;> rfl

@[simp] theorem kind_receive (intake : Intake) (vs : List Int32) (slot : Slot) :
    (slot.receive intake vs).kind = slot.kind := by
  cases slot <;> rfl

@[simp] theorem intake?_receive (intake : Intake) (vs : List Int32) (slot : Slot) (tag : Tag) :
    (slot.receive intake vs).intake? tag = slot.intake? tag := by
  rw [intake?, intake?, arms, arms, kind_receive, number_receive]

theorem receive_elements_nil (slot : Slot) : slot.receive .elements [] = slot := by
  cases slot <;> simp [receive]

theorem receive_elements_cons (v : Int32) (vs : List Int32) (slot : Slot) :
    (slot.receive .elements [v]).receive .elements vs = slot.receive .elements (v :: vs) := by
  cases slot with
  | singular n default value => simp [receive, List.getLast?_cons]
  | «repeated» n values => simp [receive]
  | packed n values => simp [receive]

end Slot

/-! ### The loop -/

namespace Content

variable {before after : Content} {slot : Slot} {tag : Tag} {intake : Intake}

theorem dispatch_of_intake? (s : Input) (hbefore : ∀ other ∈ before, other.intake? tag = none)
    (h : slot.intake? tag = some intake) :
    dispatch tag (before ++ slot :: after) s =
      (Intake.read slot.number intake s).andThen fun vs t =>
        (.ok (before ++ slot.receive intake vs :: after), t) := by
  induction before with
  | nil => simp only [List.nil_append, dispatch, h]
  | cons other before ih =>
    have hother := hbefore other List.mem_cons_self
    have hrest := ih fun o ho => hbefore o (List.mem_cons_of_mem other ho)
    simp only [List.cons_append, dispatch, hother, hrest]
    rcases Intake.read slot.number intake s with ⟨e | vs, t⟩
    · rfl
    · rfl

theorem dispatch_elements (s : Input) (hbefore : ∀ other ∈ before, other.intake? tag = none)
    (h : slot.intake? tag = some .elements) :
    dispatch tag (before ++ slot :: after) s =
      (Intake.readElements tag s).andThen fun vs t =>
        (.ok (before ++ slot.receive .elements vs :: after), t) := by
  rw [dispatch_of_intake? s hbefore h, Slot.tag_of_intake? h]
  rfl

theorem readInto_of_readTag {s t : Input} (content : Content) (h : s.readTag = (.ok tag, t))
    (hend : ¬ s.atEnd = true) :
    readInto content s = (dispatch tag content t).andThen readInto := by
  have hne : tag ≠ 0 := by
    rintro rfl
    exact Input.fieldNumber_of_readTag h hend rfl
  rw [readInto_eq, h, Outcome.andThen, if_neg hne]

/-- The values behind a tag of elements can be taken one at a time: the loop ends with the same
content and input, or fails. -/
theorem success?_dispatch_elements {v : Int32} {s t : Input}
    (hbefore : ∀ other ∈ before, other.intake? tag = none) (h : slot.intake? tag = some .elements)
    (hvalue : s.readInt32 = (.ok v, t)) :
    ((dispatch tag (before ++ slot :: after) s).andThen readInto).success? =
      (readInto (before ++ slot.receive .elements [v] :: after) t).success? := by
  have hmake := Slot.tag_of_intake? h
  have htype : tag.wireType? = some .varint := hmake ▸ Tag.wireType?_make slot.number .varint
  have hplain := readOneByOne_eq tag [] s
  rw [hvalue, Outcome.andThen] at hplain
  by_cases hend : t.atEnd = true
  · rw [if_pos hend] at hplain
    rw [dispatch_elements s hbefore h, readElements_of_ok htype hplain]
    rfl
  · rw [if_neg hend] at hplain
    rcases hnext : t.readTag with ⟨e | next, u⟩
    · rw [hnext] at hplain
      rw [dispatch_elements s hbefore h, readElements_of_error htype hplain, readInto_eq, hnext]
      rfl
    · rw [hnext, Outcome.andThen] at hplain
      by_cases hsame : next = tag
      · subst hsame
        rw [if_pos rfl, List.nil_append, ← List.append_nil [v], readOneByOne_append] at hplain
        rw [dispatch_elements s hbefore h, readInto_of_readTag _ hnext hend,
          dispatch_elements u hbefore (by simpa using h)]
        rcases hrest : readOneByOne next [] u with ⟨e | vs, w⟩
        · rw [hrest] at hplain
          rw [readElements_of_error htype hplain, readElements_of_error htype hrest]
          rfl
        · rw [hrest] at hplain
          rw [readElements_of_ok htype hplain, readElements_of_ok htype hrest]
          simp only [Outcome.andThen, Slot.receive_elements_cons, List.singleton_append]
      · -- The tag of another field is put back, so the loop reads it again.
        rw [if_neg hsame, (Intake.reaches_readTag hnext).rewind_eq] at hplain
        rw [dispatch_elements s hbefore h, readElements_of_ok htype hplain]
        rfl

end Content
end Codec
end EnumWire
