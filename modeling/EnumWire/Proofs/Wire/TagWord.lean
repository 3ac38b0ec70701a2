import Mathlib.Algebra.Group.Nat.Defs
import EnumWire.Wire.Input

/-! # The two parts of a tag

A field number below `2 ^ 29` and a wire type are recovered from the tag that joins them, so tags of
different fields differ. The wire type survives any number. -/
namespace EnumWire.Wire

theorem WireType.toNat_code_lt (w : WireType) : w.code.toNat < 8 := by
  cases w <;> decide

namespace Tag

theorem toNat_make (number : UInt32) (w : WireType) :
    (make number w).toNat = 8 * (number.toNat % 2 ^ 29) + w.code.toNat := by
  have hshift : number.toNat <<< 3 % 2 ^ 32 = 2 ^ 3 * (number.toNat % 2 ^ 29) := by
    rw [Nat.shiftLeft_eq, Nat.mul_comm]
    exact Nat.mul_mod_mul_left (2 ^ 3) number.toNat (2 ^ 29)
  rw [make, UInt32.toNat_or, UInt32.toNat_shiftLeft]
  change number.toNat <<< 3 % 2 ^ 32 ||| w.code.toNat = _
  rw [hshift, ← Nat.two_pow_add_eq_or_of_lt w.toNat_code_lt]

theorem wireCode_make (number : UInt32) (w : WireType) : wireCode (make number w) = w.code := by
  apply UInt32.toNat_inj.mp
  have hlt := w.toNat_code_lt
  rw [toNat_wireCode, toNat_make]
  omega

theorem wireType?_make (number : UInt32) (w : WireType) :
    wireType? (make number w) = some w := by
  rw [wireType?, wireCode_make, WireType.ofCode?_code]

theorem toNat_fieldNumber_make (number : UInt32) (w : WireType) :
    (fieldNumber (make number w)).toNat = number.toNat % 2 ^ 29 := by
  have hlt := w.toNat_code_lt
  rw [toNat_fieldNumber, toNat_make]
  omega

/-- A number that is kept whole by the shift into its place. -/
def Fits (number : UInt32) : Prop := 0 < number.toNat ∧ number.toNat < 2 ^ 29

instance (number : UInt32) : Decidable (Fits number) := inferInstanceAs (Decidable (_ ∧ _))

theorem fieldNumber_make {number : UInt32} (h : Fits number) (w : WireType) :
    fieldNumber (make number w) = number := by
  apply UInt32.toNat_inj.mp
  rw [toNat_fieldNumber_make, Nat.mod_eq_of_lt h.2]

theorem fieldNumber_make_ne_zero {number : UInt32} (h : Fits number) (w : WireType) :
    fieldNumber (make number w) ≠ 0 := by
  rw [fieldNumber_make h]
  rintro rfl
  exact Nat.lt_irrefl 0 h.1

theorem make_inj {m n : UInt32} {v w : WireType} (hm : m.toNat < 2 ^ 29) (hn : n.toNat < 2 ^ 29)
    (h : make m v = make n w) : m = n ∧ v = w := by
  have hnumber : (fieldNumber (make m v)).toNat = (fieldNumber (make n w)).toNat := by rw [h]
  have htype := congrArg wireType? h
  rw [toNat_fieldNumber_make, toNat_fieldNumber_make, Nat.mod_eq_of_lt hm,
    Nat.mod_eq_of_lt hn] at hnumber
  rw [wireType?_make, wireType?_make] at htype
  exact ⟨UInt32.toNat_inj.mp hnumber, Option.some.inj htype⟩

theorem make_eq_make_iff {m n : UInt32} (hm : Fits m) (hn : Fits n) (v w : WireType) :
    make m v = make n w ↔ m = n ∧ v = w := by
  constructor
  · exact make_inj hm.2 hn.2
  · rintro ⟨rfl, rfl⟩
    rfl

theorem code_of_ofCode? {code : UInt32} {w : WireType} (h : WireType.ofCode? code = some w) :
    w.code = code := by
  apply UInt32.toNat_inj.mp
  unfold WireType.ofCode? at h
  split at h
  case h_7 => cases h
  all_goals
    rename_i hcode
    cases h
    exact hcode.symm

/-- A tag with a known wire type is joined again from its parts. -/
theorem make_fieldNumber {tag : Tag} {w : WireType} (h : wireType? tag = some w) :
    make (fieldNumber tag) w = tag := by
  have hcode : w.code.toNat = tag.toNat % 8 := by
    rw [code_of_ofCode? h, toNat_wireCode]
  have hlt := tag.toNat_lt
  apply UInt32.toNat_inj.mp
  rw [toNat_make, toNat_fieldNumber, hcode]
  omega

end Tag
end EnumWire.Wire
