import EnumWire.Codec.Reading
import EnumWire.Proofs.Wire.Records

/-! # Records that are skipped

A message without fields has an arm for no tag, so its loop skips one record after the other. It
takes exactly the concatenations of well-formed records, to the last byte. Each turn takes at least
the tag off the input, so the bytes that are left bound the turns of any message's loop. -/
namespace EnumWire.Codec.Content

open EnumWire.Wire

variable {s t u : Input} {tag : Tag} {content next : Content} {rest : Bytes}

/-! ### The turns of a loop -/

/-- The loop with at most so many turns, and nothing for an answer when it takes more. -/
def readIntoWithin : (turns : Nat) → Content → Input → Option (Outcome Content)
  | 0, _, _ => none
  | turns + 1, content, s =>
    match s.readTag with
    | (.error e, t) => some (.error e, t)
    | (.ok tag, t) =>
      if tag = 0 then some (.ok content, t)
      else
        match dispatch tag content t with
        | (.error e, u) => some (.error e, u)
        | (.ok next, u) => readIntoWithin turns next u

theorem left_lt_of_turn (htag : s.readTag = (.ok tag, t)) (hne : tag ≠ 0)
    (hdispatch : dispatch tag content t = (.ok next, u)) : u.left < s.left := by
  have hend : s.atEnd = false := by
    refine Bool.eq_false_iff.mpr fun hend => hne ?_
    rw [Input.readTag, if_pos hend] at htag
    cases htag
    rfl
  have htake := Input.advances_readTag hend
  rw [htag] at htake
  have hreaches := reaches_dispatch hdispatch
  have hmoves := Nat.lt_of_lt_of_le (htake.moves rfl) hreaches.pos_le
  exact (htake.reaches.trans hreaches).left_lt hmoves

theorem readIntoWithin_eq {turns : Nat} (content : Content) (h : s.left < turns) :
    readIntoWithin turns content s = some (readInto content s) := by
  induction turns generalizing content s with
  | zero => exact absurd h (Nat.not_lt_zero _)
  | succ turns ih =>
    rw [readIntoWithin, readInto_eq]
    rcases htag : s.readTag with ⟨e | tag, t⟩
    · rfl
    · dsimp only [Outcome.andThen]
      split
      · rfl
      · rename_i hne
        rcases hdispatch : dispatch tag content t with ⟨e | next, u⟩
        · rfl
        · have hlt := left_lt_of_turn htag hne hdispatch
          exact ih next (by omega)

/-! ### Records without an arm -/

theorem dispatch_of_no_arm (s : Input) (h : ∀ slot ∈ content, slot.intake? tag = none) :
    dispatch tag content s = (s.skipField tag).andThen fun _ t => (.ok content, t) := by
  induction content with
  | nil => rfl
  | cons slot content ih =>
    obtain ⟨hslot, hcontent⟩ := List.forall_mem_cons.mp h
    rw [dispatch, hslot]
    dsimp only
    rw [ih hcontent]
    rcases s.skipField tag with ⟨e | v, t⟩
    · rfl
    · rfl

theorem readInto_of_record {record : Record} (content : Content)
    (hrecord : record.isWellFormed = true) (h : s.pending = record.bytes ++ rest) :
    readInto content s =
      (dispatch record.tag content (s.advance record.head.length)).andThen readInto := by
  have hnumber := (record.isWellFormed_iff.mp hrecord).2.1
  have hne : record.tag ≠ 0 := by
    intro hzero
    rw [hzero] at hnumber
    exact hnumber rfl
  rw [readInto_eq, Input.readTag_of_record hrecord h, Outcome.andThen, if_neg hne]

theorem readInto_skip {record : Record} (hrecord : record.isWellFormed = true)
    (harm : ∀ slot ∈ content, slot.intake? record.tag = none)
    (h : s.pending = record.bytes ++ rest) :
    readInto content s = readInto content (s.advance record.bytes.length) := by
  obtain ⟨-, -, htype, hpayload⟩ := record.isWellFormed_iff.mp hrecord
  rw [readInto_of_record content hrecord h, dispatch_of_no_arm _ harm]
  rw [Record.bytes, List.append_assoc] at h
  rw [Input.skipField_of_payload htype hpayload (Input.pending_advance h), Input.advance_advance,
    Record.bytes, List.length_append]
  rfl

theorem readInto_of_pending_nil (content : Content) (hs : s.InBounds) (h : s.pending = []) :
    readInto content s = (.ok content, s) := by
  rw [readInto_eq, Input.readTag_eq_zero_iff.mpr ⟨hs.atEnd_of_pending_nil h, rfl⟩]
  rfl

/-! ### The empty message -/

theorem readInto_nil_of_records {records : List Record} (hs : s.InBounds)
    (hrecords : ∀ record ∈ records, record.isWellFormed = true)
    (h : s.pending = records.flatMap Record.bytes) :
    readInto [] s = (.ok [], s.advance (records.flatMap Record.bytes).length) := by
  induction records generalizing s with
  | nil => exact readInto_of_pending_nil [] hs h
  | cons record records ih =>
    obtain ⟨hrecord, hrecords⟩ := List.forall_mem_cons.mp hrecords
    rw [List.flatMap_cons] at h
    have hnone : ∀ slot ∈ ([] : Content), slot.intake? record.tag = none := by simp
    rw [readInto_skip hrecord hnone h,
      ih (hs.advance h) hrecords (Input.pending_advance h), Input.advance_advance,
      List.flatMap_cons, List.length_append]

theorem records_of_readInto_nil (hs : s.InBounds) (h : readInto [] s = (.ok content, t)) :
    ∃ records : List Record, (∀ record ∈ records, record.isWellFormed = true) ∧
      s.pending = records.flatMap Record.bytes := by
  induction hleft : s.left using Nat.strongRecOn generalizing s with
  | ind left ih =>
    by_cases hend : s.atEnd = true
    · exact ⟨[], by simp, Input.pending_of_atEnd hend⟩
    · rw [readInto_eq] at h
      obtain ⟨tag, u, htag, h⟩ := Outcome.andThen_eq_ok h
      have hnumber := Input.fieldNumber_of_readTag htag hend
      have hne : tag ≠ 0 := by
        rintro rfl
        exact hnumber rfl
      rw [if_neg hne] at h
      obtain ⟨next, w, hdispatch, h⟩ := Outcome.andThen_eq_ok h
      have hlt := left_lt_of_turn htag hne hdispatch
      obtain ⟨v, x, hskip, hdone⟩ := Outcome.andThen_eq_ok hdispatch
      cases hdone
      obtain ⟨head, behind, hpending, hhead, rfl, rfl⟩ := Input.encoding_of_readTag htag hend
      have hu := hs.advance hpending
      obtain ⟨payload, rest, htype, hpayload, hbehind, rfl⟩ := Input.payload_of_skipField hu hskip
      obtain ⟨records, hrecords, hrest⟩ := ih _ (hleft ▸ hlt) (hu.advance hbehind) h rfl
      rw [Input.pending_advance hbehind] at hrest
      rw [Input.pending_advance hpending] at hbehind
      have hrecord : (Record.mk head payload).isWellFormed = true :=
        (Record.isWellFormed_iff _).mpr ⟨hhead, hnumber, htype, hpayload⟩
      refine ⟨⟨head, payload⟩ :: records, List.forall_mem_cons.mpr ⟨hrecord, hrecords⟩, ?_⟩
      rw [hpending, hbehind, hrest, List.flatMap_cons, Record.bytes, List.append_assoc]

/-- The loop of a message without fields ends within one turn for each byte and one more. It
succeeds exactly when the bytes are well-formed records one after the other, and then it has gone to
the end of them: the tag 0, at which it stops, is read at the limit only. -/
theorem readInto_nil_iff_records (bytes : Bytes) :
    readIntoWithin (bytes.length + 1) [] (Input.ofBytes bytes.toArray) =
      some (readInto [] (Input.ofBytes bytes.toArray)) ∧
    ((∃ content t, readInto [] (Input.ofBytes bytes.toArray) = (.ok content, t)) ↔
      ∃ records : List Record, (∀ record ∈ records, record.isWellFormed = true) ∧
        bytes = records.flatMap Record.bytes) ∧
    (∀ content t, readInto [] (Input.ofBytes bytes.toArray) = (.ok content, t) →
      content = [] ∧ t = (Input.ofBytes bytes.toArray).advance bytes.length ∧ t.atEnd = true) ∧
    ∀ s t : Input, s.readTag = (.ok 0, t) ↔ s.atEnd = true ∧ t = s := by
  have hs := Input.inBounds_ofBytes bytes.toArray
  have hpending : (Input.ofBytes bytes.toArray).pending = bytes := Input.pending_ofBytes _
  refine ⟨?_, ⟨?_, ?_⟩, ?_, fun s t => Input.readTag_eq_zero_iff⟩
  · apply readIntoWithin_eq
    simp [Input.left, Input.ofBytes]
  · rintro ⟨content, t, h⟩
    obtain ⟨records, hrecords, hbytes⟩ := records_of_readInto_nil hs h
    exact ⟨records, hrecords, hpending.symm.trans hbytes⟩
  · rintro ⟨records, hrecords, hbytes⟩
    exact ⟨[], _, readInto_nil_of_records hs hrecords (hpending.trans hbytes)⟩
  · intro content t h
    obtain ⟨records, hrecords, hbytes⟩ := records_of_readInto_nil hs h
    have hread := readInto_nil_of_records hs hrecords hbytes
    rw [← hbytes, hpending, h] at hread
    cases hread
    exact ⟨rfl, rfl, by simp [Input.atEnd, Input.advance, Input.ofBytes]⟩

end EnumWire.Codec.Content
