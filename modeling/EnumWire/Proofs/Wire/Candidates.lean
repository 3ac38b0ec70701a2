import EnumWire.Proofs.Wire.Records
import EnumWire.Proofs.Wire.VarintBytes
import EnumWire.Proofs.Wire.Written

/-! # Where a varint is read

A varint is looked for in the ten bytes from the position on, or in fewer where the limit is nearer.
The first of them below 128 ends it, and the groups up to there make its number. Reading takes back
what was written as a varint; other bytes for the same word are told by their last byte. -/
namespace EnumWire.Wire

/-- Two reads that leave the same input and either fail alike or answer what is related. -/
inductive Outcome.Corresponds {α β : Type} (related : α → β → Prop) :
    Outcome α → Outcome β → Prop
  | ok {a : α} {b : β} {s : Input} : related a b → Corresponds related (.ok a, s) (.ok b, s)
  | error {e : DecodeError} {s : Input} : Corresponds related (.error e, s) (.error e, s)

theorem Outcome.corresponds_andThen {α β : Type} {related : α → β → Prop} {f : α → β}
    (outcome : Outcome α) (h : ∀ a, related a (f a)) :
    outcome.Corresponds related (outcome.andThen fun a s => (.ok (f a), s)) := by
  obtain ⟨e | a, s⟩ := outcome
  · exact .error
  · exact .ok (h a)

theorem toInt_toInt32 (v : UInt64) :
    v.toUInt32.toInt32.toInt = (v.toNat : Int).bmod (2 ^ 32) := by
  have htoInt : v.toUInt32.toInt32.toInt = (v.toUInt32.toNat : Int).bmod (2 ^ 32) :=
    BitVec.toInt_eq_toNat_bmod _
  rw [htoInt, UInt64.toNat_toUInt32, Int.natCast_mod]
  exact Int.emod_bmod ..

namespace Input

/-- The bytes that a varint may take. -/
def candidates (s : Input) : Bytes := s.pending.take Varint.maxSize

/-- The bytes from the position of an input to the position of one after it. -/
def between (s t : Input) : Bytes := (s.bytes.toList.drop s.pos).take (t.pos - s.pos)

variable {s : Input}

theorem between_advance {front rest : Bytes} (h : s.pending = front ++ rest) :
    s.between (s.advance front.length) = front := by
  have hle := length_le_left h
  have htake := congrArg (List.take front.length) h
  rw [pending, List.take_take, Nat.min_eq_left hle, List.take_left] at htake
  rw [between, advance, Nat.add_sub_cancel_left, htake]

theorem value_take_candidates {k : Nat} (h : k < s.candidates.length) :
    Varint.value (s.pending.take (k + 1)) =
      ∑ i ∈ Finset.range (k + 1), (s.candidates.getD i 0).toNat % 128 * 2 ^ (7 * i) := by
  have hk : k + 1 ≤ s.pending.length ∧ k + 1 ≤ Varint.maxSize := by
    rw [candidates, List.length_take] at h
    omega
  have hbyte (i : Nat) (hi : i ∈ Finset.range (k + 1)) :
      ((s.pending.take (k + 1)).getD i 0).toNat % 128 * 2 ^ (7 * i) =
        (s.candidates.getD i 0).toNat % 128 * 2 ^ (7 * i) := by
    have hlt := Finset.mem_range.mp hi
    rw [List.getD_eq_getElem?_getD, List.getD_eq_getElem?_getD, candidates,
      List.getElem?_take_of_lt hlt, List.getElem?_take_of_lt (by omega)]
  rw [Varint.value_eq_sum, List.length_take, Nat.min_eq_left hk.1]
  exact Finset.sum_congr rfl hbyte

/-- The read in terms of the candidates alone. -/
theorem readVarint64_eq_candidates (hs : s.InBounds) :
    s.readVarint64 =
      match s.candidates.findIdx? (· < 0x80) with
      | some k =>
        (.ok (UInt64.ofNat
          (∑ i ∈ Finset.range (k + 1), (s.candidates.getD i 0).toNat % 128 * 2 ^ (7 * i))),
          s.advance (k + 1))
      | none =>
        if s.candidates.length = Varint.maxSize then
          (.error (.malformedVarint s.pos), s.advance Varint.maxSize)
        else (.error (.truncated 1 0), { s with pos := s.limit }) := by
  rw [readVarint64_eq, Varint.leading_eq_findIdx?, ← candidates]
  cases hfirst : s.candidates.findIdx? (· < 0x80) with
  | some k =>
    have hk := (List.findIdx?_eq_some_iff_getElem.mp hfirst).1
    have hlength : (s.pending.take (k + 1)).length = k + 1 := by
      rw [candidates, List.length_take] at hk
      rw [List.length_take]
      omega
    simp only [Option.map_some]
    rw [Varint.word64, value_take_candidates hk, hlength]
  | none =>
    have hend : s.pos + s.left = s.limit := Nat.add_sub_cancel' hs.pos_le
    simp only [Option.map_none]
    rw [candidates, List.length_take, hs.length_pending, advance, hend]
    by_cases hlt : s.left < Varint.maxSize
    · rw [if_pos hlt, if_neg (by omega)]
    · rw [if_neg hlt, if_pos (by omega)]

/-- The first candidate below 128 ends the varint, which stands for the sum of its groups modulo
`2 ^ 64`. Without one, ten candidates are malformed and fewer are truncated. The 32-bit reads answer
the low bits, signed or not. A written word is read back wherever it stands. Bytes that are read as a
word are the bytes written for it exactly if there are as many of them, or if they do not end in a
group of zero, and a tenth byte is one. -/
theorem readVarint64_from_candidates (hs : s.InBounds) :
    (s.readVarint64 =
      match s.candidates.findIdx? (· < 0x80) with
      | some k =>
        (.ok (UInt64.ofNat
          (∑ i ∈ Finset.range (k + 1), (s.candidates.getD i 0).toNat % 128 * 2 ^ (7 * i))),
          s.advance (k + 1))
      | none =>
        if s.candidates.length = 10 then (.error (.malformedVarint s.pos), s.advance 10)
        else (.error (.truncated 1 0), { s with pos := s.limit })) ∧
    s.readVarint64.Corresponds (fun v w => w.toNat = v.toNat % 2 ^ 32) s.readVarint32 ∧
    s.readVarint64.Corresponds (fun v w => w.toInt = (v.toNat : Int).bmod (2 ^ 32)) s.readInt32 ∧
    (∀ (out : Output) (v : UInt64) (behind : Bytes) (room : Nat),
      (out.inputBefore (.varint64 v) behind room).readVarint64 =
        (.ok v, out.inputAfter (.varint64 v) behind room)) ∧
    ∀ (v : UInt64) (t : Input), s.readVarint64 = (.ok v, t) →
      (s.between t = (Write.varint64 v).bytes ↔
        (s.between t).length = Varint.size64 v ∧
          ((s.between t).length = 10 → (s.between t).getLast? = some 1)) ∧
      (s.between t = (Write.varint64 v).bytes ↔
        ((s.between t).length = 1 ∨ (s.between t).getLast? ≠ some 0) ∧
          ((s.between t).length = 10 → (s.between t).getLast? = some 1)) := by
  refine ⟨readVarint64_eq_candidates hs,
    Outcome.corresponds_andThen s.readVarint64 fun v => UInt64.toNat_toUInt32 v,
    Outcome.corresponds_andThen s.readVarint64 toInt_toInt32, ?_, ?_⟩
  · intro out v behind room
    exact Output.readVarint64_inputBefore out behind room v
  · intro v t hread
    obtain ⟨front, rest, hpending, hfront, rfl, rfl⟩ := encoding_of_readVarint64 hread
    rw [between_advance hpending]
    exact ⟨Varint.eq_encode_iff_size hfront, Varint.eq_encode_iff_getLast hfront⟩

/-- Padded with zeros, in front of a byte behind the limit. -/
def paddedThree : Input := ⟨#[0xff, 0x83, 0x80, 0x00, 0x01], 1, 4⟩

/-- Ten bytes, the last of which holds six bits too many. -/
def overfullWord : Input :=
  .ofBytes #[0xff, 0xff, 0xff, 0xff, 0xff, 0xff, 0xff, 0xff, 0xff, 0x7f]

theorem readVarint64_from_candidates_padded :
    paddedThree.InBounds ∧ paddedThree.readVarint64 = (.ok 3, paddedThree.advance 3) ∧
    paddedThree.between (paddedThree.advance 3) ≠ (Write.varint64 3).bytes ∧
    overfullWord.InBounds ∧ overfullWord.readVarint64 = (.ok (-1), overfullWord.advance 10) ∧
    overfullWord.between (overfullWord.advance 10) ≠ (Write.varint64 (-1)).bytes := by
  have hpadded : paddedThree.InBounds := ⟨by decide, by decide⟩
  have hoverfull : overfullWord.InBounds := inBounds_ofBytes _
  have hthree := readVarint64_from_candidates hpadded
  have hword := readVarint64_from_candidates hoverfull
  have hread : paddedThree.readVarint64 = (.ok 3, paddedThree.advance 3) := hthree.1.trans rfl
  have hfull : overfullWord.readVarint64 = (.ok (-1), overfullWord.advance 10) := hword.1.trans rfl
  refine ⟨hpadded, hread, ?_, hoverfull, hfull, ?_⟩
  · rw [ne_eq, (hthree.2.2.2.2 3 _ hread).2]
    decide
  · rw [ne_eq, (hword.2.2.2.2 (-1) _ hfull).2]
    decide

end Input
end EnumWire.Wire
