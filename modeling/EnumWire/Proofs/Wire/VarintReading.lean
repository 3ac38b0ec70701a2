import Mathlib.Algebra.Group.Nat.Defs
import EnumWire.Proofs.Wire.Pending
import EnumWire.Wire.Record

/-! # Reading a varint

A varint is read off the pending bytes: the bytes up to the first one below 128, of which ten are
looked at. The groups are joined in a 64-bit word, so the value counts modulo `2 ^ 64`. -/
namespace EnumWire.Wire
namespace Varint

/-- The first bytes up to one that ends a varint, if there is one among the first `count`. -/
def leading : Nat → Bytes → Option Bytes
  | 0, _ => none
  | _ + 1, [] => none
  | count + 1, b :: rest => if b < 0x80 then some [b] else (leading count rest).map (b :: ·)

def word64 (bytes : Bytes) : UInt64 := UInt64.ofNat (value bytes)

def int32 (bytes : Bytes) : Int32 := (word32 bytes).toInt32

theorem toUInt32_word64 (bytes : Bytes) : (word64 bytes).toUInt32 = word32 bytes := by
  apply UInt32.toNat_inj.mp
  simp [word64, word32]

/-! ### The bytes of one varint -/

/-- Whether only the last byte is below 128. -/
def endsOnce (bytes : Bytes) : Bool :=
  bytes.getLast?.any (fun b => b < 0x80) && bytes.dropLast.all fun b => 0x80 ≤ b

theorem isEncoding_eq (bytes : Bytes) :
    isEncoding bytes = (decide (bytes.length ≤ maxSize) && endsOnce bytes) := by
  simp only [isEncoding, endsOnce, Bool.and_assoc]

@[simp] theorem endsOnce_nil : endsOnce [] = false := rfl

theorem endsOnce_cons (b : UInt8) (rest : Bytes) :
    endsOnce (b :: rest) = if b < 0x80 then rest.isEmpty else endsOnce rest := by
  cases rest with
  | nil => by_cases h : b < 0x80 <;> simp [endsOnce, h]
  | cons c rest =>
    have hle : decide (0x80 ≤ b) = !decide (b < 0x80) := by
      rw [← decide_not, decide_eq_decide, UInt8.not_lt]
    by_cases h : b < 0x80
    · simp [endsOnce, hle, h]
    · simp only [endsOnce, List.getLast?_cons_cons, List.dropLast_cons_cons, List.all_cons, hle, h,
        decide_false, Bool.not_false, Bool.true_and, if_false]

theorem leading_of_endsOnce {count : Nat} {front : Bytes} (rest : Bytes)
    (hlength : front.length ≤ count) (h : endsOnce front = true) :
    leading count (front ++ rest) = some front := by
  induction front generalizing count with
  | nil => simp at h
  | cons b front ih =>
    rw [List.length_cons] at hlength
    obtain ⟨count, rfl⟩ : ∃ n, count = n + 1 := ⟨count - 1, by omega⟩
    rw [endsOnce_cons] at h
    rw [List.cons_append, leading]
    by_cases hb : b < 0x80
    · rw [if_pos hb, List.isEmpty_iff] at h
      rw [if_pos hb, h]
    · rw [if_neg hb] at h
      rw [if_neg hb, ih (by omega) h, Option.map_some]

theorem endsOnce_of_leading {count : Nat} {bytes front : Bytes}
    (h : leading count bytes = some front) :
    front.length ≤ count ∧ endsOnce front = true ∧ ∃ rest, bytes = front ++ rest := by
  fun_induction leading count bytes generalizing front with
  | case1 => simp at h
  | case2 => simp at h
  | case3 count b rest hb =>
    obtain rfl : [b] = front := by simpa using h
    exact ⟨Nat.le_add_left _ _, by simp [endsOnce_cons, hb], rest, rfl⟩
  | case4 count b rest hb ih =>
    obtain ⟨more, hmore, rfl⟩ := Option.map_eq_some_iff.mp h
    obtain ⟨hlength, hends, tail, rfl⟩ := ih hmore
    refine ⟨Nat.succ_le_succ hlength, ?_, tail, rfl⟩
    rw [endsOnce_cons, if_neg hb, hends]

theorem leading_eq_some_iff {bytes front : Bytes} :
    leading maxSize bytes = some front ↔
      isEncoding front = true ∧ ∃ rest, bytes = front ++ rest := by
  rw [isEncoding_eq, Bool.and_eq_true, decide_eq_true_eq]
  constructor
  · intro h
    obtain ⟨hlength, hends, hrest⟩ := endsOnce_of_leading h
    exact ⟨⟨hlength, hends⟩, hrest⟩
  · rintro ⟨⟨hlength, hends⟩, rest, rfl⟩
    exact leading_of_endsOnce rest hlength hends

theorem leading_eq_none {count : Nat} {bytes : Bytes} (h : ∀ b ∈ bytes, 0x80 ≤ b) :
    leading count bytes = none := by
  fun_induction leading count bytes with
  | case1 => rfl
  | case2 => rfl
  | case3 count b rest hb => exact absurd hb (UInt8.not_lt.mpr (h b List.mem_cons_self))
  | case4 count b rest hb ih => rw [ih fun c hc => h c (List.mem_cons_of_mem b hc), Option.map_none]

theorem isEncoding_ne_nil {bytes : Bytes} (h : isEncoding bytes = true) : bytes ≠ [] := by
  rintro rfl
  simp [isEncoding] at h

/-! ### Groups joined in a word -/

theorem toNat_group (b : UInt8) : (b &&& 0x7f).toUInt64.toNat = b.toNat % 128 := by
  rw [UInt8.toNat_toUInt64, UInt8.toNat_and]
  exact Nat.and_two_pow_sub_one_eq_mod b.toNat 7

theorem toNat_shift {k : Nat} (h : k < 10) : (UInt64.ofNat (7 * k)).toNat = 7 * k := by
  rw [UInt64.toNat_ofNat']
  omega

/-- A group is shifted above the bits before it; what does not fit in the word is lost. -/
theorem toNat_or_group {k : Nat} {word : UInt64} (b : UInt8) (hk : k < 10)
    (hword : word.toNat < 2 ^ (7 * k)) :
    (word ||| ((b &&& 0x7f).toUInt64 <<< UInt64.ofNat (7 * k))).toNat =
      (word.toNat + 2 ^ (7 * k) * (b.toNat % 128)) % 2 ^ 64 := by
  have hsplit : 2 ^ 64 = 2 ^ (7 * k) * 2 ^ (64 - 7 * k) := by
    rw [← Nat.pow_add]
    congr 1
    omega
  have hgroup : 2 ^ (7 * k) * (b.toNat % 128) % 2 ^ 64 =
      2 ^ (7 * k) * (b.toNat % 128 % 2 ^ (64 - 7 * k)) := by
    rw [hsplit, Nat.mul_mod_mul_left]
  have hfits : word.toNat + 2 ^ (7 * k) * (b.toNat % 128 % 2 ^ (64 - 7 * k)) < 2 ^ 64 := by
    have hlt : b.toNat % 128 % 2 ^ (64 - 7 * k) < 2 ^ (64 - 7 * k) :=
      Nat.mod_lt _ (Nat.two_pow_pos _)
    calc
      _ < 2 ^ (7 * k) + 2 ^ (7 * k) * (b.toNat % 128 % 2 ^ (64 - 7 * k)) :=
        Nat.add_lt_add_right hword _
      _ = 2 ^ (7 * k) * (b.toNat % 128 % 2 ^ (64 - 7 * k) + 1) := by
        rw [Nat.mul_succ, Nat.add_comm]
      _ ≤ 2 ^ (7 * k) * 2 ^ (64 - 7 * k) := Nat.mul_le_mul_left _ hlt
      _ = 2 ^ 64 := hsplit.symm
  rw [UInt64.toNat_or, UInt64.toNat_shiftLeft, toNat_group, toNat_shift hk,
    Nat.mod_eq_of_lt (by omega : 7 * k < 64), Nat.shiftLeft_eq, Nat.mul_comm, hgroup, Nat.or_comm,
    ← Nat.two_pow_add_eq_or_of_lt hword, Nat.add_comm, Nat.add_mod, hgroup,
    Nat.mod_eq_of_lt word.toNat_lt, Nat.mod_eq_of_lt hfits]

theorem toNat_or_group_lt {k : Nat} {word : UInt64} (b : UInt8) (hk : k < 10)
    (hword : word.toNat < 2 ^ (7 * k)) :
    (word ||| ((b &&& 0x7f).toUInt64 <<< UInt64.ofNat (7 * k))).toNat < 2 ^ (7 * (k + 1)) := by
  rw [toNat_or_group b hk hword]
  have hgroup : b.toNat % 128 < 128 := Nat.mod_lt _ (by decide)
  calc
    _ ≤ word.toNat + 2 ^ (7 * k) * (b.toNat % 128) := Nat.mod_le _ _
    _ < 2 ^ (7 * k) + 2 ^ (7 * k) * (b.toNat % 128) := Nat.add_lt_add_right hword _
    _ = 2 ^ (7 * k) * (b.toNat % 128 + 1) := by rw [Nat.mul_succ, Nat.add_comm]
    _ ≤ 2 ^ (7 * k) * 2 ^ 7 := Nat.mul_le_mul_left _ hgroup
    _ = 2 ^ (7 * (k + 1)) := by rw [← Nat.pow_add, Nat.mul_succ]

@[simp] theorem value_nil : value [] = 0 := rfl

@[simp] theorem value_cons (b : UInt8) (rest : Bytes) :
    value (b :: rest) = b.toNat % 128 + 128 * value rest := rfl

end Varint

namespace Input

variable {s : Input}

/-- `k` groups have been read into `word`, and `count` more may follow. -/
theorem readGroups_eq (start : Nat) {count k : Nat} {word : UInt64} (hcount : k + count = 10)
    (hword : word.toNat < 2 ^ (7 * k)) (s : Input) :
    readGroups start count (UInt64.ofNat (7 * k)) word s =
      match Varint.leading count s.pending with
      | some front =>
        (.ok (UInt64.ofNat (word.toNat + 2 ^ (7 * k) * Varint.value front)), s.advance front.length)
      | none =>
        if s.pending.length < count then (.error (.truncated 1 0), s.advance s.pending.length)
        else (.error (.malformedVarint start), s.advance count) := by
  induction count generalizing k word s with
  | zero => simp [readGroups, Varint.leading]
  | succ count ih =>
    rw [readGroups]
    cases hpending : s.pending with
    | nil => simp [readByte_of_pending_nil hpending, Outcome.andThen, Varint.leading]
    | cons b rest =>
      have hk : k < 10 := by omega
      have hgroup := Varint.toNat_or_group b hk hword
      rw [readByte_of_pending hpending]
      simp only [Outcome.andThen, Varint.leading]
      by_cases hb : b < 0x80
      · rw [if_pos hb, if_pos hb]
        simp only [Varint.value_cons, Varint.value_nil, List.length_singleton, Prod.mk.injEq,
          Except.ok.injEq, and_true]
        apply UInt64.toNat_inj.mp
        rw [hgroup, UInt64.toNat_ofNat', Nat.mul_zero, Nat.add_zero]
      · rw [if_neg hb, if_neg hb]
        have hshift : UInt64.ofNat (7 * k) + 7 = UInt64.ofNat (7 * (k + 1)) := by
          apply UInt64.toNat_inj.mp
          rw [UInt64.toNat_add, Varint.toNat_shift hk, UInt64.toNat_ofNat']
          rfl
        have hsplit : s.pending = [b] ++ rest := hpending
        have hrest : (s.advance 1).pending = rest := pending_advance hsplit
        rw [hshift, ih (by omega) (Varint.toNat_or_group_lt b hk hword), hrest]
        cases hleading : Varint.leading count rest with
        | none => simp [Nat.add_comm]
        | some front =>
          simp only [Option.map_some, Varint.value_cons, List.length_cons, advance_advance,
            Nat.add_comm, Prod.mk.injEq, Except.ok.injEq, and_true]
          apply UInt64.toNat_inj.mp
          rw [UInt64.toNat_ofNat', UInt64.toNat_ofNat', hgroup, Nat.mod_add_mod, Nat.mul_succ,
            Nat.pow_add, Nat.mul_add, Nat.mul_assoc, Nat.add_assoc]

/-- A varint is the shortest run of pending bytes that ends one, of at most ten. Where there is
none, either the bytes have run out or the tenth did not end it. -/
theorem readVarint64_eq (s : Input) :
    s.readVarint64 =
      match Varint.leading Varint.maxSize s.pending with
      | some front => (.ok (Varint.word64 front), s.advance front.length)
      | none =>
        if s.pending.length < Varint.maxSize then
          (.error (.truncated 1 0), s.advance s.pending.length)
        else (.error (.malformedVarint s.pos), s.advance Varint.maxSize) := by
  have hzero : (0 : UInt64).toNat < 2 ^ (7 * 0) := by decide
  have h := readGroups_eq s.pos (rfl : 0 + Varint.maxSize = 10) hzero s
  simpa [readVarint64, Varint.word64] using h

theorem readVarint64_of_encoding {front rest : Bytes} (h : s.pending = front ++ rest)
    (hfront : Varint.isEncoding front = true) :
    s.readVarint64 = (.ok (Varint.word64 front), s.advance front.length) := by
  have hleading : Varint.leading Varint.maxSize s.pending = some front :=
    Varint.leading_eq_some_iff.mpr ⟨hfront, rest, h⟩
  rw [readVarint64_eq, hleading]

theorem encoding_of_readVarint64 {v : UInt64} {t : Input} (h : s.readVarint64 = (.ok v, t)) :
    ∃ front rest, s.pending = front ++ rest ∧ Varint.isEncoding front = true ∧
      v = Varint.word64 front ∧ t = s.advance front.length := by
  rw [readVarint64_eq] at h
  cases hleading : Varint.leading Varint.maxSize s.pending with
  | none =>
    rw [hleading] at h
    dsimp only at h
    split at h <;> cases h
  | some front =>
    rw [hleading] at h
    simp only [Prod.mk.injEq, Except.ok.injEq] at h
    obtain ⟨hfront, rest, hpending⟩ := Varint.leading_eq_some_iff.mp hleading
    exact ⟨front, rest, hpending, hfront, h.1.symm, h.2.symm⟩

theorem readVarint32_of_encoding {front rest : Bytes} (h : s.pending = front ++ rest)
    (hfront : Varint.isEncoding front = true) :
    s.readVarint32 = (.ok (Varint.word32 front), s.advance front.length) := by
  rw [readVarint32, readVarint64_of_encoding h hfront, Outcome.andThen, Varint.toUInt32_word64]

theorem encoding_of_readVarint32 {v : UInt32} {t : Input} (h : s.readVarint32 = (.ok v, t)) :
    ∃ front rest, s.pending = front ++ rest ∧ Varint.isEncoding front = true ∧
      v = Varint.word32 front ∧ t = s.advance front.length := by
  rcases hread : s.readVarint64 with ⟨e | word, u⟩
  · rw [readVarint32, hread] at h
    cases h
  · obtain ⟨front, rest, hpending, hfront, rfl, rfl⟩ := encoding_of_readVarint64 hread
    rw [readVarint32_of_encoding hpending hfront] at h
    cases h
    exact ⟨front, rest, hpending, hfront, rfl, rfl⟩

theorem readInt32_of_encoding {front rest : Bytes} (h : s.pending = front ++ rest)
    (hfront : Varint.isEncoding front = true) :
    s.readInt32 = (.ok (Varint.int32 front), s.advance front.length) := by
  rw [readInt32, readVarint64_of_encoding h hfront, Outcome.andThen, Varint.toUInt32_word64,
    Varint.int32]

theorem not_atEnd_of_encoding {front rest : Bytes} (h : s.pending = front ++ rest)
    (hfront : Varint.isEncoding front = true) : ¬ s.atEnd = true := by
  intro hend
  rw [pending_of_atEnd hend, eq_comm, List.append_eq_nil_iff] at h
  exact Varint.isEncoding_ne_nil hfront h.1

theorem fieldNumber_of_readTag {tag : Tag} {t : Input} (h : s.readTag = (.ok tag, t))
    (hend : ¬ s.atEnd = true) : Tag.fieldNumber tag ≠ 0 := by
  rw [readTag, if_neg hend] at h
  rcases hread : s.readVarint32 with ⟨e | word, u⟩
  · rw [hread] at h
    cases h
  · rw [hread, Outcome.andThen] at h
    split at h
    · cases h
    · rename_i hnumber
      cases h
      exact hnumber

theorem readTag_of_encoding {front rest : Bytes} (h : s.pending = front ++ rest)
    (hfront : Varint.isEncoding front = true) (hnumber : Tag.fieldNumber (Varint.word32 front) ≠ 0) :
    s.readTag = (.ok (Varint.word32 front), s.advance front.length) := by
  rw [readTag, if_neg (not_atEnd_of_encoding h hfront), readVarint32_of_encoding h hfront,
    Outcome.andThen, if_neg hnumber]

end Input
end EnumWire.Wire
