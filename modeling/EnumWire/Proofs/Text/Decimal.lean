import EnumWire.Text.Decimal

/-! # Decimal literals

Only digits stand in a decimal text, before them a sign at most, so numbers are told by their texts. -/
namespace EnumWire.Text

theorem valueFrom_eq_none {t : Text} {c : Char} (hmem : c ∈ t) (hdigit : digitValue? c = none)
    (acc : Nat) : valueFrom acc t = none := by
  induction t generalizing acc with
  | nil => cases hmem
  | cons d t ih =>
    rw [valueFrom]
    rcases List.mem_cons.1 hmem with rfl | htail
    · rw [hdigit]
      rfl
    · cases digitValue? d with
      | none => rfl
      | some n => exact ih htail _

theorem toNat?_eq_none {t : Text} {c : Char} (hmem : c ∈ t) (hdigit : digitValue? c = none) :
    toNat? t = none := by
  rw [toNat?, if_neg (List.ne_nil_of_mem hmem), valueFrom_eq_none hmem hdigit]

theorem not_mem_ofNat {c : Char} (hdigit : digitValue? c = none) (n : Nat) : c ∉ ofNat n := by
  intro hmem
  have hvalue := toNat?_eq_none hmem hdigit
  rw [toNat?_ofNat] at hvalue
  cases hvalue

theorem ofNat_inj {m n : Nat} : ofNat m = ofNat n ↔ m = n := by
  refine ⟨fun h => ?_, congrArg ofNat⟩
  have hvalue := congrArg toNat? h
  rw [toNat?_ofNat, toNat?_ofNat] at hvalue
  exact Option.some.inj hvalue

/-- A text with a character that is neither a sign nor a digit is no literal. -/
theorem toInt?_eq_none {t : Text} {c : Char} (hmem : c ∈ t) (hdigit : digitValue? c = none)
    (hsign : c ≠ '-') : toInt? t = none := by
  unfold toInt?
  split
  · rename_i rest
    rw [toNat?_eq_none ((List.mem_cons.1 hmem).resolve_left hsign) hdigit]
    rfl
  · rw [toNat?_eq_none hmem hdigit]
    rfl

theorem toInt?_ofInt (n : Int) : toInt? (ofInt n) = some n := by
  cases n with
  | ofNat n =>
    rw [ofInt]
    unfold toInt?
    split
    · rename_i rest hrest
      -- Digits do not start with a sign.
      have hvalue := toNat?_ofNat n
      rw [hrest, toNat?, if_neg (List.cons_ne_nil _ _), valueFrom] at hvalue
      cases hvalue
    · rw [toNat?_ofNat]
      rfl
  | negSucc n =>
    rw [ofInt, toInt?, toNat?_ofNat]
    rfl

theorem not_mem_ofInt {c : Char} (hdigit : digitValue? c = none) (hsign : c ≠ '-') (n : Int) :
    c ∉ ofInt n := by
  intro hmem
  have hvalue := toInt?_eq_none hmem hdigit hsign
  rw [toInt?_ofInt] at hvalue
  cases hvalue

end EnumWire.Text
