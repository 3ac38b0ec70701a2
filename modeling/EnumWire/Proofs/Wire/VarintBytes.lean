import Mathlib.Algebra.BigOperators.Group.Finset.Basic
import Mathlib.Algebra.BigOperators.Ring.Finset
import EnumWire.Proofs.Wire.VarintWriting

/-! # The bytes of a varint

The groups of a varint are the digits of its number to the base 128, so the number and the length
tell which bytes they are. A word is written with as few bytes as its number takes. Its other varints
are padded with groups of zero, or hold bits that the word has no room for. -/
namespace EnumWire.Wire.Varint

/-! ### Numbers -/

theorem value_eq_sum (bytes : Bytes) :
    value bytes =
      ∑ i ∈ Finset.range bytes.length, (bytes.getD i 0).toNat % 128 * 2 ^ (7 * i) := by
  induction bytes with
  | nil => rfl
  | cons b bytes ih =>
    have hshift (i : Nat) : ((b :: bytes).getD (i + 1) 0).toNat % 128 * 2 ^ (7 * (i + 1)) =
        128 * ((bytes.getD i 0).toNat % 128 * 2 ^ (7 * i)) := by
      rw [List.getD_cons_succ, Nat.mul_succ, Nat.pow_add, ← Nat.mul_assoc, Nat.mul_comm]
    rw [List.length_cons, Finset.sum_range_succ', Finset.sum_congr rfl fun i _ => hshift i,
      ← Finset.mul_sum, ← ih, value_cons, List.getD_cons_zero, Nat.mul_zero, Nat.pow_zero,
      Nat.mul_one, Nat.add_comm]

theorem two_pow_group (n : Nat) : 2 ^ (7 * (n + 1)) = 128 * 2 ^ (7 * n) := by
  rw [Nat.mul_succ, Nat.pow_add, Nat.mul_comm]

theorem value_concat (init : Bytes) {last : UInt8} (h : last.toNat < 128) :
    value (init ++ [last]) = value init + 2 ^ (7 * init.length) * last.toNat := by
  induction init with
  | nil => simp [Nat.mod_eq_of_lt h]
  | cons b init ih =>
    rw [List.cons_append, value_cons, ih, value_cons, List.length_cons, two_pow_group, Nat.mul_add,
      Nat.mul_assoc, Nat.add_assoc]

theorem value_lt (bytes : Bytes) : value bytes < 2 ^ (7 * bytes.length) := by
  induction bytes with
  | nil => simp
  | cons b bytes ih =>
    rw [value_cons, List.length_cons, two_pow_group]
    omega

theorem toNat_word64 {bytes : Bytes} (h : value bytes < 2 ^ 64) :
    (word64 bytes).toNat = value bytes := by
  rw [word64, UInt64.toNat_ofNat', Nat.mod_eq_of_lt h]

/-! ### The first byte below 128 -/

theorem leading_eq_findIdx? (count : Nat) (bytes : Bytes) :
    leading count bytes =
      ((bytes.take count).findIdx? (· < 0x80)).map fun k => bytes.take (k + 1) := by
  fun_induction leading count bytes with
  | case1 => rfl
  | case2 => rfl
  | case3 count b rest hb =>
    simp [List.findIdx?_cons, hb]
  | case4 count b rest hb ih =>
    rw [ih, List.take_succ_cons, List.findIdx?_cons, if_neg (by simpa using hb)]
    simp [Function.comp_def]

theorem endsOnce_cons_iff (b : UInt8) (rest : Bytes) :
    endsOnce (b :: rest) = true ↔
      b.toNat < 128 ∧ rest = [] ∨ 128 ≤ b.toNat ∧ endsOnce rest = true := by
  have hlt : b < 0x80 ↔ b.toNat < 128 := UInt8.lt_iff_toNat_lt
  rw [endsOnce_cons]
  by_cases hb : b < 0x80
  · rw [if_pos hb, List.isEmpty_iff]
    have := hlt.mp hb
    simp [this, Nat.not_le.mpr this]
  · rw [if_neg hb]
    have := Nat.not_lt.mp (mt hlt.mpr hb)
    simp [this, Nat.not_lt.mpr this]

theorem exists_last {bytes : Bytes} (h : endsOnce bytes = true) :
    ∃ init last, bytes = init ++ [last] ∧ last.toNat < 128 := by
  induction bytes with
  | nil => cases h
  | cons b bytes ih =>
    rcases (endsOnce_cons_iff b bytes).mp h with ⟨hlast, rfl⟩ | ⟨-, hrest⟩
    · exact ⟨[], b, rfl, hlast⟩
    · obtain ⟨init, last, rfl, hlast⟩ := ih hrest
      exact ⟨b :: init, last, rfl, hlast⟩

/-- Bytes of one length that stand for one number are the same bytes. -/
theorem eq_of_value_eq {front other : Bytes} (hlength : front.length = other.length)
    (hfront : endsOnce front = true) (hother : endsOnce other = true)
    (h : value front = value other) : front = other := by
  induction front generalizing other with
  | nil => cases hfront
  | cons b front ih =>
    cases other with
    | nil => cases hother
    | cons c other =>
      rw [List.length_cons, List.length_cons, Nat.add_right_cancel_iff] at hlength
      rw [value_cons, value_cons] at h
      have hb := b.toNat_lt
      have hc := c.toNat_lt
      rcases (endsOnce_cons_iff b front).mp hfront with ⟨hlast, rfl⟩ | ⟨hmore, hrest⟩
      · obtain rfl := List.length_eq_zero_iff.mp hlength.symm
        have hclast : c.toNat < 128 := by
          rcases (endsOnce_cons_iff c []).mp hother with hend | hend
          · exact hend.1
          · cases hend.2
        have hbyte : b.toNat = c.toNat := by
          rw [value_nil] at h
          omega
        rw [UInt8.toNat_inj.mp hbyte]
      · rcases (endsOnce_cons_iff c other).mp hother with ⟨-, rfl⟩ | ⟨hcmore, hcrest⟩
        · obtain rfl := List.length_eq_zero_iff.mp hlength
          cases hrest
        · have hbyte : b.toNat = c.toNat := by omega
          rw [UInt8.toNat_inj.mp hbyte, ih hlength hrest hcrest (by omega)]

/-! ### Varints of a word -/

/-- A varint is the one that is written for its word if it has as many bytes as the word takes, and
no bit of it is lost. -/
theorem eq_encode_iff {bytes : Bytes} (h : endsOnce bytes = true) :
    bytes = encode (word64 bytes) ↔
      bytes.length = size64 (word64 bytes) ∧ value bytes < 2 ^ 64 := by
  rw [size64_eq]
  constructor
  · intro heq
    have hvalue := value_encode (word64 bytes)
    rw [← heq] at hvalue
    exact ⟨congrArg List.length heq, hvalue ▸ (word64 bytes).toNat_lt⟩
  · rintro ⟨hlength, hlt⟩
    refine eq_of_value_eq hlength h (endsOnce_encode _) ?_
    rw [value_encode, toNat_word64 hlt]

/-- Only a tenth byte can hold bits that are lost: the word has room for one bit of it. -/
theorem value_concat_lt_iff {init : Bytes} {last : UInt8} (hlast : last.toNat < 128)
    (hlength : init.length < maxSize) :
    value (init ++ [last]) < 2 ^ 64 ↔ (init.length = 9 → last.toNat ≤ 1) := by
  have hlow := value_lt init
  rw [value_concat init hlast]
  by_cases hnine : init.length = 9
  · rw [hnine] at hlow ⊢
    constructor
    · omega
    · intro hle
      have := hle rfl
      omega
  · have hpow : 2 ^ (7 * init.length) ≤ 2 ^ 56 :=
      Nat.pow_le_pow_right (by decide) (by rw [maxSize] at hlength; omega)
    have hhigh : 2 ^ (7 * init.length) * last.toNat ≤ 2 ^ 56 * 127 :=
      Nat.mul_le_mul hpow (by omega)
    exact iff_of_true (by omega) fun h => absurd h hnine

/-- A word takes all bytes of a varint if the last one adds to its number. -/
theorem length_encode_concat_iff {init : Bytes} {last : UInt8} (hlast : last.toNat < 128)
    (hlt : value (init ++ [last]) < 2 ^ 64) :
    (encode (word64 (init ++ [last]))).length = init.length + 1 ↔ init = [] ∨ last ≠ 0 := by
  have hpos := length_encode_pos (word64 (init ++ [last]))
  have hle := length_encode_le_iff init.length (word64 (init ++ [last]))
  have hvalue := value_lt (init ++ [last])
  rw [List.length_append, List.length_singleton] at hvalue
  rw [toNat_word64 hlt, iff_true_right hvalue] at hle
  cases init with
  | nil =>
    rw [List.length_nil] at hle ⊢
    exact iff_of_true (by omega) (.inl rfl)
  | cons b init =>
    -- One byte less would do where the number ends before the last group.
    have hfewer := length_encode_le_iff init.length (word64 (b :: init ++ [last]))
    rw [toNat_word64 hlt, value_concat _ hlast, List.length_cons] at hfewer
    have hlow := value_lt (b :: init)
    rw [List.length_cons] at hlow hle ⊢
    have hzero : last = 0 ↔ last.toNat = 0 := UInt8.toNat_inj.symm
    rw [or_iff_right (List.cons_ne_nil b init), ne_eq, hzero]
    constructor
    · intro hlength hnone
      rw [hnone, Nat.mul_zero, Nat.add_zero] at hfewer
      have := hfewer.mpr hlow
      omega
    · intro hne
      have hhigh : 2 ^ (7 * (init.length + 1)) ≤ 2 ^ (7 * (init.length + 1)) * last.toNat :=
        Nat.le_mul_of_pos_right _ (Nat.pos_of_ne_zero hne)
      omega

/-- A varint is the one that is written for its word if it is not padded with a group of zero and a
tenth byte holds the one bit that the word has room for. -/
theorem eq_encode_iff_getLast {bytes : Bytes} (h : isEncoding bytes = true) :
    bytes = encode (word64 bytes) ↔
      (bytes.length = 1 ∨ bytes.getLast? ≠ some 0) ∧
        (bytes.length = maxSize → bytes.getLast? = some 1) := by
  rw [isEncoding_eq, Bool.and_eq_true, decide_eq_true_eq] at h
  obtain ⟨hlength, hends⟩ := h
  rw [eq_encode_iff hends, size64_eq]
  obtain ⟨init, last, rfl, hlast⟩ := exists_last hends
  rw [List.length_append, List.length_singleton] at hlength ⊢
  have hfits := value_concat_lt_iff hlast hlength
  have hzero : last = 0 ↔ last.toNat = 0 := UInt8.toNat_inj.symm
  have hone : last = 1 ↔ last.toNat = 1 := UInt8.toNat_inj.symm
  have hnil : init = [] ↔ init.length = 0 := List.length_eq_zero_iff.symm
  rw [List.getLast?_concat, ne_eq, Option.some.injEq, Option.some.injEq, hzero, hone, maxSize]
  constructor
  · rintro ⟨hsize, hlt⟩
    rw [eq_comm, length_encode_concat_iff hlast hlt, ne_eq, hzero, hnil] at hsize
    have := hfits.mp hlt
    omega
  · rintro ⟨hmore, htenth⟩
    have hlt := hfits.mpr fun hnine => (htenth (by omega)).le
    refine ⟨?_, hlt⟩
    rw [eq_comm, length_encode_concat_iff hlast hlt, ne_eq, hzero, hnil]
    omega

/-- As long as a varint has less than ten bytes, its length alone decides. -/
theorem eq_encode_iff_size {bytes : Bytes} (h : isEncoding bytes = true) :
    bytes = encode (word64 bytes) ↔
      bytes.length = size64 (word64 bytes) ∧
        (bytes.length = maxSize → bytes.getLast? = some 1) := by
  have hgetLast := eq_encode_iff_getLast h
  rw [isEncoding_eq, Bool.and_eq_true, decide_eq_true_eq] at h
  obtain ⟨hlength, hends⟩ := h
  have hsize := eq_encode_iff hends
  constructor
  · intro heq
    exact ⟨(hsize.mp heq).1, (hgetLast.mp heq).2⟩
  · rintro ⟨hbytes, htenth⟩
    refine hsize.mpr ⟨hbytes, ?_⟩
    obtain ⟨init, last, rfl, hlast⟩ := exists_last hends
    rw [List.length_append, List.length_singleton] at hlength htenth
    refine (value_concat_lt_iff hlast hlength).mpr fun hnine => ?_
    have hone := htenth (congrArg (· + 1) hnine)
    rw [List.getLast?_concat, Option.some.injEq] at hone
    rw [hone]
    decide

end EnumWire.Wire.Varint
