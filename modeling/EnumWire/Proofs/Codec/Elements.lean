import EnumWire.Codec.OneByOne
import EnumWire.Codec.Reading
import EnumWire.Proofs.Wire.Pending
import EnumWire.Proofs.Wire.TagWord

/-! # Elements counted ahead and elements read one by one

Both loops walk the same bytes: the one that counts skips each value and looks at every tag, the one
that reads after it takes the values and trusts the tags. The plain loop does both at once. -/
namespace EnumWire.Codec

open EnumWire.Wire

/-- Elements read in turn, with the tag itself before each but the first. -/
inductive TaggedRun (tag : Tag) : List Int32 → Input → Input → Prop
  | last {v : Int32} {s t : Input} (value : s.readInt32 = (.ok v, t)) : TaggedRun tag [v] s t
  | more {v : Int32} {vs : List Int32} {s t u w : Input} (value : s.readInt32 = (.ok v, t))
      (next : t.readTag = (.ok tag, u)) (rest : TaggedRun tag vs u w) : TaggedRun tag (v :: vs) s w

variable {tag : Tag}

theorem TaggedRun.length_pos {vs : List Int32} {s t : Input} (h : TaggedRun tag vs s t) :
    0 < vs.length := by
  cases h with
  | last value => exact Nat.zero_lt_one
  | more value next rest => exact Nat.succ_pos _

theorem TaggedRun.readTagged_eq {vs : List Int32} {s t : Input} (h : TaggedRun tag vs s t) :
    Intake.readTagged (vs.length - 1) s = (.ok vs, t) := by
  induction h with
  | last value => simp [Intake.readTagged, value, Outcome.andThen]
  | @more v vs s t u w value next rest ih =>
    obtain ⟨n, hn⟩ : ∃ n, vs.length = n + 1 := ⟨vs.length - 1, by have := rest.length_pos; omega⟩
    rw [hn, Nat.add_sub_cancel] at ih
    simp only [List.length_cons, hn, Nat.add_sub_cancel, Intake.readTagged, value, next, ih,
      Outcome.andThen]

theorem readOneByOne_append (tag : Tag) (first read : List Int32) (s : Input) :
    readOneByOne tag (first ++ read) s =
      (readOneByOne tag read s).andThen fun vs t => (.ok (first ++ vs), t) := by
  fun_induction readOneByOne tag read s with
  | case1 read s e t hvalue =>
    rw [readOneByOne_eq, hvalue]
    rfl
  | case2 read s v t hvalue hend =>
    rw [readOneByOne_eq, hvalue]
    simp only [Outcome.andThen, if_pos hend, List.append_assoc]
  | case3 read s v t hvalue hend e u hnext =>
    rw [readOneByOne_eq, hvalue]
    simp only [Outcome.andThen, if_neg hend, hnext]
  | case4 read s v t hvalue hend u hnext ih =>
    rw [readOneByOne_eq, hvalue]
    simp only [Outcome.andThen, if_neg hend, hnext, if_true, List.append_assoc]
    exact ih
  | case5 read s v t hvalue hend next u hnext hne =>
    rw [readOneByOne_eq, hvalue]
    simp only [Outcome.andThen, if_neg hend, hnext, if_neg hne, List.append_assoc]

/-- What the count does before it goes back. -/
def countFrom (tag : Tag) (count : Nat) (s : Input) : Outcome Nat :=
  (s.skipField tag).andThen fun _ t => Input.countTagged tag count t

theorem skipField_eq {s : Input} (h : tag.wireType? = some .varint) :
    s.skipField tag = s.readInt32.andThen fun _ t => (.ok (), t) := by
  rw [Input.skipField, h, Input.readInt32]
  rcases s.readVarint64 with ⟨_ | v, t⟩ <;> rfl

theorem countFrom_eq {s : Input} (h : tag.wireType? = some .varint) (count : Nat) :
    countFrom tag count s = s.readInt32.andThen fun _ t =>
      if t.atEnd then (.ok count, t)
      else t.readTag.andThen fun next u =>
        if next = tag then countFrom tag (count + 1) u else (.ok count, u) := by
  rw [countFrom, skipField_eq h]
  rcases s.readInt32 with ⟨_ | v, t⟩
  · rfl
  · simp only [Outcome.andThen, Input.countTagged_eq tag count t, ite_not, countFrom]

/-- A plain loop that fails has met the byte that stops the count. -/
theorem countFrom_of_error {s t : Input} {read : List Int32} {e : DecodeError}
    (htag : tag.wireType? = some .varint) (h : readOneByOne tag read s = (.error e, t))
    (count : Nat) : countFrom tag count s = (.error e, t) := by
  fun_induction readOneByOne tag read s generalizing count with
  | case1 read s e' t' hvalue =>
    cases h
    rw [countFrom_eq htag, hvalue, Outcome.andThen]
  | case2 read s v t' hvalue hend => cases h
  | case3 read s v t' hvalue hend e' u hnext =>
    cases h
    rw [countFrom_eq htag, hvalue]
    simp only [Outcome.andThen, if_neg hend, hnext]
  | case4 read s v t' hvalue hend u hnext ih =>
    rw [countFrom_eq htag, hvalue]
    simp only [Outcome.andThen, if_neg hend, hnext, if_true]
    exact ih h (count + 1)
  | case5 read s v t' hvalue hend next u hnext hne => cases h

/-- A plain loop that succeeds has gone through a run of elements, and the count counts them. The
tag after the run is read by both and put back by both. -/
theorem taggedRun_of_ok {s t : Input} {read vs : List Int32}
    (htag : tag.wireType? = some .varint) (h : readOneByOne tag read s = (.ok vs, t)) (count : Nat) :
    ∃ run u, vs = read ++ run ∧ TaggedRun tag run s t ∧
      countFrom tag (count + 1) s = (.ok (count + run.length), u) := by
  fun_induction readOneByOne tag read s generalizing count with
  | case1 read s e' t' hvalue => cases h
  | case2 read s v t' hvalue hend =>
    cases h
    refine ⟨[v], t, rfl, .last hvalue, ?_⟩
    rw [countFrom_eq htag, hvalue]
    simp only [Outcome.andThen, hend, if_true, List.length_singleton]
  | case3 read s v t' hvalue hend e' u hnext => cases h
  | case4 read s v t' hvalue hend u hnext ih =>
    obtain ⟨run, w, hvs, hrun, hcount⟩ := ih h (count + 1)
    refine ⟨v :: run, w, by simpa using hvs, .more hvalue hnext hrun, ?_⟩
    rw [countFrom_eq htag, hvalue]
    simp only [Outcome.andThen, if_neg hend, hnext, if_true, hcount, List.length_cons]
    rw [Nat.add_assoc, Nat.add_comm 1]
  | case5 read s v t' hvalue hend next u hnext hne =>
    cases h
    refine ⟨[v], u, rfl, ?_, ?_⟩
    · rw [(Intake.reaches_readTag hnext).rewind_eq]
      exact .last hvalue
    · rw [countFrom_eq htag, hvalue]
      simp only [Outcome.andThen, if_neg hend, hnext, if_neg hne, List.length_singleton]

theorem countUnpacked_eq (tag : Tag) (s : Input) :
    s.countUnpacked tag = ((countFrom tag 1 s).1, s) :=
  Prod.ext rfl (Input.countUnpacked_snd tag s)

theorem readElements_of_ok {s t : Input} {vs : List Int32} (htag : tag.wireType? = some .varint)
    (h : readOneByOne tag [] s = (.ok vs, t)) : Intake.readElements tag s = (.ok vs, t) := by
  obtain ⟨run, u, hvs, hrun, hcount⟩ := taggedRun_of_ok htag h 0
  rw [Nat.zero_add, Nat.zero_add] at hcount
  rw [List.nil_append] at hvs
  rw [Intake.readElements, countUnpacked_eq, hcount, hvs]
  exact hrun.readTagged_eq

/-- A failed count leaves the input where the elements begin. -/
theorem readElements_of_error {s t : Input} {e : DecodeError} (htag : tag.wireType? = some .varint)
    (h : readOneByOne tag [] s = (.error e, t)) : Intake.readElements tag s = (.error e, s) := by
  rw [Intake.readElements, countUnpacked_eq, countFrom_of_error htag h]
  rfl

theorem taggedRun_of_countUnpacked {s : Input} {count : Nat} (htag : tag.wireType? = some .varint)
    (h : (s.countUnpacked tag).1 = .ok count) :
    ∃ vs t, vs.length = count ∧ TaggedRun tag vs s t := by
  rw [countUnpacked_eq] at h
  rcases hplain : readOneByOne tag [] s with ⟨e | vs, t⟩
  · rw [countFrom_of_error htag hplain] at h
    cases h
  · obtain ⟨run, u, -, hrun, hcount⟩ := taggedRun_of_ok htag hplain 0
    rw [Nat.zero_add, Nat.zero_add] at hcount
    rw [hcount] at h
    exact ⟨run, t, Except.ok.inj h, hrun⟩

/-- Elements that are counted first are read as one by one: the same values and the same input after
them, or the same failure. Once they are counted, each value and each tag between two of them is
there, and the tag is that of the field. -/
theorem readElements_eq_readOneByOne (number : UInt32) (s : Input) :
    (∀ vs t, readOneByOne (Tag.make number .varint) [] s = (.ok vs, t) →
      Intake.readElements (Tag.make number .varint) s = (.ok vs, t)) ∧
    (∀ e t, readOneByOne (Tag.make number .varint) [] s = (.error e, t) →
      Intake.readElements (Tag.make number .varint) s = (.error e, s)) ∧
    ∀ count, (s.countUnpacked (Tag.make number .varint)).1 = .ok count →
      ∃ vs t, vs.length = count ∧ TaggedRun (Tag.make number .varint) vs s t ∧
        Intake.readTagged (count - 1) s = (.ok vs, t) := by
  have htag := Tag.wireType?_make number .varint
  refine ⟨fun vs t h => readElements_of_ok htag h, fun e t h => readElements_of_error htag h, ?_⟩
  intro count h
  obtain ⟨vs, t, rfl, hrun⟩ := taggedRun_of_countUnpacked htag h
  exact ⟨vs, t, rfl, hrun, hrun.readTagged_eq⟩

end EnumWire.Codec
