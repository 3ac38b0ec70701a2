import EnumWire.Proofs.Wire.VarintReading

/-! # Writing a varint

The bytes of a word are one varint, of as many bytes as the sizes say, and stand for the word. The
low 32 bits of the bytes of a signed integer are that integer, also when it is negative and takes
all ten bytes. -/
namespace EnumWire.Wire.Varint

theorem lt_iff_toNat_lt (v : UInt64) : v < 0x80 ↔ v.toNat < 128 := UInt64.lt_iff_toNat_lt

theorem encode_of_lt {v : UInt64} (h : v.toNat < 128) : encode v = [v.toUInt8] := by
  rw [encode, if_pos ((lt_iff_toNat_lt v).mpr h)]

theorem encode_of_ge {v : UInt64} (h : 128 ≤ v.toNat) :
    encode v = ((v.toUInt8 &&& 0x7f) ||| 0x80) :: encode (v >>> 7) := by
  rw [encode, if_neg (fun hlt => Nat.not_lt.mpr h ((lt_iff_toNat_lt v).mp hlt))]

/-- The low seven bits with the high bit set. -/
theorem toNat_continued (v : UInt64) :
    ((v.toUInt8 &&& 0x7f) ||| 0x80).toNat = v.toNat % 128 + 128 := by
  have hlow : (v.toUInt8 &&& 0x7f).toNat = v.toNat % 128 := by
    rw [UInt8.toNat_and, UInt64.toNat_toUInt8]
    have hand := Nat.and_two_pow_sub_one_eq_mod (v.toNat % 256) 7
    have hmod : v.toNat % 256 % 128 = v.toNat % 128 := by omega
    exact hand.trans hmod
  have hlt : v.toNat % 128 < 2 ^ 7 := Nat.mod_lt _ (by decide)
  have hor := Nat.two_pow_add_eq_or_of_lt hlt 1
  rw [UInt8.toNat_or, hlow, Nat.or_comm]
  exact hor.symm.trans (Nat.add_comm _ _)

theorem toNat_last {v : UInt64} (h : v.toNat < 128) : v.toUInt8.toNat = v.toNat := by
  rw [UInt64.toNat_toUInt8]
  omega

theorem encode_induction {motive : UInt64 → Prop} (last : ∀ v : UInt64, v.toNat < 128 → motive v)
    (more : ∀ v : UInt64, 128 ≤ v.toNat → motive (v >>> 7) → motive v) (v : UInt64) : motive v := by
  induction hn : v.toNat using Nat.strongRecOn generalizing v with
  | ind n ih =>
    by_cases h : v.toNat < 128
    · exact last v h
    · apply more v (Nat.not_lt.mp h)
      exact ih _ (by rw [toNat_shiftRight_seven]; omega) _ rfl

theorem endsOnce_encode (v : UInt64) : endsOnce (encode v) = true := by
  induction v using encode_induction with
  | last v h =>
    have hlt : v.toUInt8 < 0x80 := by
      rw [UInt8.lt_iff_toNat_lt, toNat_last h]
      exact h
    rw [encode_of_lt h, endsOnce_cons, if_pos hlt]
    rfl
  | more v h ih =>
    have hge : ¬ ((v.toUInt8 &&& 0x7f) ||| 0x80) < 0x80 := by
      rw [UInt8.lt_iff_toNat_lt, toNat_continued]
      exact Nat.not_lt.mpr (Nat.le_add_left _ _)
    rw [encode_of_ge h, endsOnce_cons, if_neg hge, ih]

theorem value_encode (v : UInt64) : value (encode v) = v.toNat := by
  induction v using encode_induction with
  | last v h =>
    rw [encode_of_lt h, value_cons, value_nil, toNat_last h]
    omega
  | more v h ih =>
    rw [encode_of_ge h, value_cons, toNat_continued, ih, toNat_shiftRight_seven]
    omega

/-! ### Sizes -/

theorem length_encode_pos (v : UInt64) : 0 < (encode v).length := by
  apply List.length_pos_iff.mpr
  intro hnil
  have hends := endsOnce_encode v
  rw [hnil, endsOnce_nil] at hends
  cases hends

theorem length_encode_le_iff (k : Nat) (v : UInt64) :
    (encode v).length ≤ k + 1 ↔ v.toNat < 2 ^ (7 * (k + 1)) := by
  induction k generalizing v with
  | zero =>
    by_cases h : v.toNat < 128
    · simp [encode_of_lt h, h]
    · have hpos := length_encode_pos (v >>> 7)
      rw [encode_of_ge (Nat.not_lt.mp h), List.length_cons]
      omega
  | succ k ih =>
    have hpow : 2 ^ (7 * (k + 1 + 1)) = 2 ^ (7 * (k + 1)) * 128 := by
      rw [Nat.mul_succ 7 (k + 1), Nat.pow_add]
    by_cases h : v.toNat < 128
    · have hpos := Nat.two_pow_pos (7 * (k + 1))
      rw [encode_of_lt h, List.length_singleton, hpow]
      omega
    · rw [encode_of_ge (Nat.not_lt.mp h), List.length_cons, Nat.add_le_add_iff_right, ih,
        toNat_shiftRight_seven, hpow]
      exact Nat.div_lt_iff_lt_mul (by decide)

theorem length_encode_le (v : UInt64) : (encode v).length ≤ maxSize :=
  (length_encode_le_iff 9 v).mpr (Nat.lt_of_lt_of_le v.toNat_lt (by decide))

theorem isEncoding_encode (v : UInt64) : isEncoding (encode v) = true := by
  rw [isEncoding_eq, endsOnce_encode, Bool.and_true]
  exact decide_eq_true (length_encode_le v)

/-- The bits of a word from a place on are all clear when the word is small. -/
theorem and_mask_eq_zero_iff (v mask : UInt32) {k : Nat} (hk : k ≤ 32)
    (hmask : mask.toNat = (2 ^ (32 - k) - 1) <<< k) : v &&& mask = 0 ↔ v.toNat < 2 ^ k := by
  have hbits : v.toNat &&& mask.toNat = (v.toNat / 2 ^ k) <<< k := by
    apply Nat.eq_of_testBit_eq
    intro i
    rw [hmask, Nat.testBit_and, Nat.testBit_shiftLeft, Nat.testBit_shiftLeft,
      Nat.testBit_two_pow_sub_one, Nat.testBit_div_two_pow]
    by_cases hi : k ≤ i
    · have hhigh : 32 ≤ i → v.toNat.testBit i = false := fun h =>
        Nat.testBit_lt_two_pow (Nat.lt_of_lt_of_le v.toNat_lt (Nat.pow_le_pow_right (by decide) h))
      rw [Nat.sub_add_cancel hi]
      by_cases hlow : i < 32
      · simp [hi, show i - k < 32 - k by omega]
      · simp [hhigh (Nat.not_lt.mp hlow)]
    · simp [hi]
  rw [← UInt32.toNat_inj, UInt32.toNat_and, hbits, Nat.shiftLeft_eq]
  have hpos := Nat.two_pow_pos k
  constructor
  · intro h
    rcases Nat.mul_eq_zero.mp h with h | h
    · exact (Nat.div_eq_zero_iff_lt hpos).mp h
    · omega
  · intro h
    rw [Nat.div_eq_of_lt h, Nat.zero_mul]
    rfl

theorem size32_eq (v : UInt32) : size32 v = (encode v.toUInt64).length := by
  have h7 := and_mask_eq_zero_iff v ((0xffffffff : UInt32) <<< 7) (by decide : 7 ≤ 32) (by decide)
  have h14 := and_mask_eq_zero_iff v ((0xffffffff : UInt32) <<< 14) (by decide : 14 ≤ 32) (by decide)
  have h21 := and_mask_eq_zero_iff v ((0xffffffff : UInt32) <<< 21) (by decide : 21 ≤ 32) (by decide)
  have h28 := and_mask_eq_zero_iff v ((0xffffffff : UInt32) <<< 28) (by decide : 28 ≤ 32) (by decide)
  have hpos := length_encode_pos v.toUInt64
  have hlength (k : Nat) := length_encode_le_iff k v.toUInt64
  simp only [UInt32.toNat_toUInt64] at hlength
  have hone := hlength 0
  have htwo := hlength 1
  have hthree := hlength 2
  have hfour := hlength 3
  have hfive := (hlength 4).mpr (Nat.lt_of_lt_of_le v.toNat_lt (by decide))
  simp only [size32, h7, h14, h21, h28]
  simp only [Nat.reduceAdd, Nat.reduceMul] at hone htwo hthree hfour
  split
  · omega
  · split
    · omega
    · split
      · omega
      · split <;> omega

theorem size64_eq (v : UInt64) : size64 v = (encode v).length := by
  induction v using encode_induction with
  | last v h =>
    have hzero : v >>> 7 = 0 := by
      apply UInt64.toNat_inj.mp
      rw [toNat_shiftRight_seven, Nat.div_eq_of_lt h]
      rfl
    rw [size64, dif_pos hzero, encode_of_lt h, List.length_singleton]
  | more v h ih =>
    have hne : v >>> 7 ≠ 0 := by
      intro hzero
      have hvalue := congrArg UInt64.toNat hzero
      rw [toNat_shiftRight_seven, UInt64.toNat_zero] at hvalue
      omega
    rw [size64, dif_neg hne, encode_of_ge h, List.length_cons, ih]

/-! ### Signed integers -/

theorem toNat_ofInt32 {v : Int32} (h : ¬ 0 ≤ v) :
    (ofInt32 v).toNat = v.toUInt32.toNat + (2 ^ 64 - 2 ^ 32) := by
  have hmsb : v.toBitVec.msb = true := by
    rw [Int32.not_le, Int32.lt_iff_toInt_lt] at h
    exact BitVec.msb_eq_toInt.trans (decide_eq_true h)
  have hextend := BitVec.toNat_signExtend v.toBitVec (v := 64)
  rw [hmsb, if_pos rfl, BitVec.toNat_setWidth] at hextend
  have hlt := v.toBitVec.isLt
  rw [Nat.mod_eq_of_lt (by omega)] at hextend
  exact hextend

theorem length_encodeInt32 (v : Int32) : (encodeInt32 v).length = int32Size v := by
  rw [encodeInt32, int32Size]
  split
  · rw [size32_eq]
  · rename_i h
    have hle := length_encode_le (ofInt32 v)
    have hgt := length_encode_le_iff 8 (ofInt32 v)
    rw [toNat_ofInt32 h] at hgt
    simp only [maxSize] at hle ⊢
    omega

theorem isEncoding_encodeInt32 (v : Int32) : isEncoding (encodeInt32 v) = true := by
  rw [encodeInt32]
  split
  · exact isEncoding_encode _
  · exact isEncoding_encode _

theorem int32_encodeInt32 (v : Int32) : int32 (encodeInt32 v) = v := by
  have hword : word32 (encodeInt32 v) = v.toUInt32 := by
    apply UInt32.toNat_inj.mp
    rw [word32, UInt32.toNat_ofNat', encodeInt32]
    have hlt := v.toUInt32.toNat_lt
    split
    · rw [value_encode, UInt32.toNat_toUInt64]
      exact Nat.mod_eq_of_lt hlt
    · rename_i h
      rw [value_encode, toNat_ofInt32 h]
      omega
  rw [int32, hword, Int32.toInt32_toUInt32]

theorem word32_encode (v : UInt32) : word32 (encode v.toUInt64) = v := by
  apply UInt32.toNat_inj.mp
  rw [word32, UInt32.toNat_ofNat', value_encode, UInt32.toNat_toUInt64]
  exact Nat.mod_eq_of_lt v.toNat_lt

end EnumWire.Wire.Varint
