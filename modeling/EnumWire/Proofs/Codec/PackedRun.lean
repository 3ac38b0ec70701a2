import EnumWire.Codec.Reading
import EnumWire.Proofs.Wire.VarintReading

/-! # Packed runs

A length prefix announces a run of varints without tags. The prefix sets a limit, the count goes
through the varints up to it, and the reads go through the same varints again. -/
namespace EnumWire.Codec

open EnumWire.Wire

/-- A length prefix and the varints of the run that it announces, byte for byte. -/
structure IsPackedRun (head : Bytes) (pieces : List Bytes) : Prop where
  head_isEncoding : Varint.isEncoding head = true
  isEncoding : ∀ piece ∈ pieces, Varint.isEncoding piece = true
  length_eq : pieces.flatten.length = (Varint.word32 head).toNat

variable {s t : Input} {pieces : List Bytes}

/-! ### The count -/

theorem countVarints_of_pieces (count : Nat)
    (hpieces : ∀ piece ∈ pieces, Varint.isEncoding piece = true)
    (h : s.pending = pieces.flatten) (hlimit : s.pos + pieces.flatten.length = s.limit) :
    Input.countVarints count s = (.ok (count + pieces.length), s.advance pieces.flatten.length) := by
  induction pieces generalizing count s with
  | nil =>
    have hend : s.atEnd = true := by simpa [Input.atEnd] using hlimit
    rw [Input.countVarints_eq, if_pos hend]
    rfl
  | cons piece pieces ih =>
    obtain ⟨hpiece, hpieces⟩ := List.forall_mem_cons.mp hpieces
    rw [List.flatten_cons, List.length_append] at hlimit
    rw [List.flatten_cons] at h
    rw [Input.countVarints_eq, if_neg (Input.not_atEnd_of_encoding h hpiece),
      Input.readVarint64_of_encoding h hpiece, Outcome.andThen,
      ih (count + 1) hpieces (Input.pending_advance h) (by simp only [Input.advance]; omega)]
    rw [Input.advance_advance, List.flatten_cons, List.length_append, List.length_cons,
      Nat.add_assoc, Nat.add_comm 1]

theorem pieces_of_countVarints {count total : Nat}
    (h : Input.countVarints count s = (.ok total, t)) :
    ∃ pieces : List Bytes, (∀ piece ∈ pieces, Varint.isEncoding piece = true) ∧
      s.pending = pieces.flatten ∧ s.pos + pieces.flatten.length = s.limit ∧
      total = count + pieces.length := by
  fun_induction Input.countVarints count s with
  | case1 count s hend =>
    cases h
    refine ⟨[], by simp, Input.pending_of_atEnd hend, ?_, rfl⟩
    simpa [Input.atEnd] using hend
  | case2 count s hend e u hread => cases h
  | case3 count s hend v u hread ih =>
    obtain ⟨front, rest, hpending, hfront, -, rfl⟩ := Input.encoding_of_readVarint64 hread
    obtain ⟨pieces, hpieces, hrest, hlimit, rfl⟩ := ih h
    rw [Input.pending_advance hpending] at hrest
    refine ⟨front :: pieces, ?_, ?_, ?_, ?_⟩
    · exact List.forall_mem_cons.mpr ⟨hfront, hpieces⟩
    · rw [hpending, hrest, List.flatten_cons]
    · simp only [Input.advance, List.flatten_cons, List.length_append] at hlimit ⊢
      omega
    · rw [List.length_cons]
      omega

/-- What is left of a varint at the limit stops the count. -/
theorem countVarints_of_unfinished {tail : Bytes} (count : Nat)
    (hpieces : ∀ piece ∈ pieces, Varint.isEncoding piece = true)
    (h : s.pending = pieces.flatten ++ tail) (hne : tail ≠ []) (htail : ∀ b ∈ tail, 0x80 ≤ b) :
    (Input.countVarints count s).1 =
      .error (if tail.length < Varint.maxSize then .truncated 1 0
        else .malformedVarint (s.pos + pieces.flatten.length)) := by
  induction pieces generalizing count s with
  | nil =>
    rw [List.flatten_nil, List.nil_append] at h
    have hend : ¬ s.atEnd = true := fun hend => hne (h ▸ Input.pending_of_atEnd hend)
    rw [Input.countVarints_eq, if_neg hend, Input.readVarint64_eq, h, Varint.leading_eq_none htail]
    by_cases hlength : tail.length < Varint.maxSize
    · simp only [if_pos hlength, Outcome.andThen]
    · simp only [if_neg hlength, Outcome.andThen, List.flatten_nil, List.length_nil, Nat.add_zero]
  | cons piece pieces ih =>
    obtain ⟨hpiece, hpieces⟩ := List.forall_mem_cons.mp hpieces
    rw [List.flatten_cons, List.append_assoc] at h
    rw [Input.countVarints_eq, if_neg (Input.not_atEnd_of_encoding h hpiece),
      Input.readVarint64_of_encoding h hpiece, Outcome.andThen,
      ih (count + 1) hpieces (Input.pending_advance h)]
    simp [Input.advance, Nat.add_assoc]

theorem countPacked_eq (s : Input) : s.countPacked = ((Input.countVarints 0 s).1, s) :=
  Prod.ext rfl (Input.countPacked_snd s)

theorem countPacked_of_pieces (hpieces : ∀ piece ∈ pieces, Varint.isEncoding piece = true)
    (h : s.pending = pieces.flatten) (hlimit : s.pos + pieces.flatten.length = s.limit) :
    s.countPacked = (.ok pieces.length, s) := by
  rw [countPacked_eq, countVarints_of_pieces 0 hpieces h hlimit, Nat.zero_add]

theorem pieces_of_countPacked {count : Nat} (h : s.countPacked = (.ok count, t)) :
    t = s ∧ ∃ pieces : List Bytes, (∀ piece ∈ pieces, Varint.isEncoding piece = true) ∧
      s.pending = pieces.flatten ∧ s.pos + pieces.flatten.length = s.limit ∧
      count = pieces.length := by
  rw [countPacked_eq] at h
  rcases hcount : Input.countVarints 0 s with ⟨e | total, u⟩
  · rw [hcount] at h
    cases h
  · rw [hcount] at h
    cases h
    obtain ⟨pieces, hpieces, hpending, hlimit, htotal⟩ := pieces_of_countVarints hcount
    exact ⟨rfl, pieces, hpieces, hpending, hlimit, by rw [htotal, Nat.zero_add]⟩

/-! ### The reads -/

theorem readPlain_of_pieces {rest : Bytes}
    (hpieces : ∀ piece ∈ pieces, Varint.isEncoding piece = true)
    (h : s.pending = pieces.flatten ++ rest) :
    Intake.readPlain pieces.length s =
      (.ok (pieces.map Varint.int32), s.advance pieces.flatten.length) := by
  induction pieces generalizing s with
  | nil => rfl
  | cons piece pieces ih =>
    obtain ⟨hpiece, hpieces⟩ := List.forall_mem_cons.mp hpieces
    rw [List.flatten_cons, List.append_assoc] at h
    rw [List.length_cons, Intake.readPlain, Input.readInt32_of_encoding h hpiece, Outcome.andThen,
      ih hpieces (Input.pending_advance h)]
    simp [Outcome.andThen]

theorem readPlain_of_countPacked {count : Nat} (h : s.countPacked = (.ok count, t)) :
    ∃ vs, vs.length = count ∧ Intake.readPlain count s = (.ok vs, { s with pos := s.limit }) := by
  obtain ⟨-, pieces, hpieces, hpending, hlimit, rfl⟩ := pieces_of_countPacked h
  rw [← List.append_nil pieces.flatten] at hpending
  refine ⟨pieces.map Varint.int32, List.length_map _, ?_⟩
  rw [readPlain_of_pieces hpieces hpending, Input.advance, hlimit]

/-! ### The run behind its prefix -/

theorem readPackedRun_of_head {head rest : Bytes} (h : s.pending = head ++ rest)
    (hhead : Varint.isEncoding head = true) :
    Intake.readPackedRun s =
      ((s.advance head.length).pushLimit (Varint.word32 head).toNat).andThen fun limit u =>
        u.countPacked.andThen fun count u =>
          (Intake.readPlain count u).andThen fun vs u => (.ok vs, u.popLimit limit) := by
  rw [Intake.readPackedRun, Input.readVarint32_of_encoding h hhead, Outcome.andThen]

theorem readPackedRun_of_isPackedRun {head rest : Bytes} (hrun : IsPackedRun head pieces)
    (h : s.pending = head ++ pieces.flatten ++ rest) :
    Intake.readPackedRun s = (.ok (pieces.map Varint.int32),
      s.advance (head.length + pieces.flatten.length)) := by
  rw [List.append_assoc] at h
  have hbehind := Input.pending_advance h
  have hrunPending := Input.pending_upTo_length hbehind
  have hcount := countPacked_of_pieces hrun.isEncoding hrunPending rfl
  rw [← List.append_nil pieces.flatten] at hrunPending
  have hread := readPlain_of_pieces hrun.isEncoding hrunPending
  rw [List.append_nil] at hread
  rw [readPackedRun_of_head h hrun.head_isEncoding, ← hrun.length_eq,
    Input.pushLimit_of_le (Input.length_le_left hbehind)]
  simp only [Outcome.andThen, hcount, hread]
  simp [Input.advance, Input.popLimit, Input.upTo, Nat.add_assoc]

theorem isPackedRun_of_readPackedRun {vs : List Int32}
    (h : Intake.readPackedRun s = (.ok vs, t)) :
    ∃ head pieces rest, s.pending = head ++ pieces.flatten ++ rest ∧ IsPackedRun head pieces := by
  obtain ⟨length, u, hprefix, h⟩ := Outcome.andThen_eq_ok h
  obtain ⟨limit, v, hpush, h⟩ := Outcome.andThen_eq_ok h
  obtain ⟨count, w, hcount, h⟩ := Outcome.andThen_eq_ok h
  obtain ⟨head, behind, hpending, hhead, rfl, rfl⟩ := Input.encoding_of_readVarint32 hprefix
  obtain ⟨hle, -, rfl⟩ := Input.le_left_of_pushLimit hpush
  obtain ⟨-, pieces, hpieces, hrun, hlimit, -⟩ := pieces_of_countPacked hcount
  have hsplit := Input.pending_upTo_append hle
  rw [Input.pending_advance hpending, hrun] at hsplit
  refine ⟨head, pieces, behind.drop (Varint.word32 head).toNat, ?_, hhead, hpieces, ?_⟩
  · rw [hpending, List.append_assoc, ← hsplit]
  · exact Nat.add_left_cancel hlimit

theorem readPackedRun_of_unfinished {head tail rest : Bytes} (hhead : Varint.isEncoding head = true)
    (hpieces : ∀ piece ∈ pieces, Varint.isEncoding piece = true)
    (hlength : (pieces.flatten ++ tail).length = (Varint.word32 head).toNat)
    (h : s.pending = head ++ (pieces.flatten ++ tail) ++ rest) (hne : tail ≠ [])
    (htail : ∀ b ∈ tail, 0x80 ≤ b) :
    (Intake.readPackedRun s).1 =
      .error (if tail.length < Varint.maxSize then .truncated 1 0
        else .malformedVarint (s.pos + head.length + pieces.flatten.length)) := by
  rw [List.append_assoc] at h
  have hbehind := Input.pending_advance h
  have hcount := countVarints_of_unfinished 0 hpieces (Input.pending_upTo_length hbehind) hne htail
  rw [readPackedRun_of_head h hhead, ← hlength,
    Input.pushLimit_of_le (Input.length_le_left hbehind)]
  simp only [Outcome.andThen]
  rw [countPacked_eq, hcount]
  rfl

/-- A packed run is read exactly when its prefix announces bytes that are there and that are varints
up to the last one. Each varint gives one value, and what comes after the run is read next, under
the limit from before. Once the varints are counted, all of them are there to be read. A varint that
goes on after the run fails, also where the bytes after the run would end it. -/
theorem readPackedRun_iff_isPackedRun (s : Input) :
    (∀ vs t, Intake.readPackedRun s = (.ok vs, t) ↔
      ∃ head pieces rest, s.pending = head ++ pieces.flatten ++ rest ∧ IsPackedRun head pieces ∧
        vs = pieces.map Varint.int32 ∧ t = s.advance (head.length + pieces.flatten.length)) ∧
    (∀ u count v, Input.countPacked u = (.ok count, v) →
      ∃ vs, vs.length = count ∧ Intake.readPlain count u = (.ok vs, { u with pos := u.limit })) ∧
    ∀ (head : Bytes) (pieces : List Bytes) (tail rest : Bytes), Varint.isEncoding head = true →
      (∀ piece ∈ pieces, Varint.isEncoding piece = true) →
      (pieces.flatten ++ tail).length = (Varint.word32 head).toNat →
      s.pending = head ++ (pieces.flatten ++ tail) ++ rest → tail ≠ [] → (∀ b ∈ tail, 0x80 ≤ b) →
      (Intake.readPackedRun s).1 =
        .error (if tail.length < Varint.maxSize then .truncated 1 0
          else .malformedVarint (s.pos + head.length + pieces.flatten.length)) := by
  refine ⟨?_, fun u count v h => readPlain_of_countPacked h, ?_⟩
  · intro vs t
    constructor
    · intro h
      obtain ⟨head, pieces, rest, hpending, hrun⟩ := isPackedRun_of_readPackedRun h
      rw [readPackedRun_of_isPackedRun hrun hpending] at h
      cases h
      exact ⟨head, pieces, rest, hpending, hrun, rfl, rfl⟩
    · rintro ⟨head, pieces, rest, hpending, hrun, rfl, rfl⟩
      exact readPackedRun_of_isPackedRun hrun hpending
  · intro head pieces tail rest hhead hpieces hlength hpending hne htail
    exact readPackedRun_of_unfinished hhead hpieces hlength hpending hne htail

end EnumWire.Codec
