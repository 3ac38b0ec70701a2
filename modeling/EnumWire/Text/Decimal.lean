import EnumWire.Text.Basic

/-! # Numbers in decimal and hexadecimal notation

`ofNat` and `ofInt` write the digits without leading zeros; `toNat?` and `toInt?` read them back. -/
namespace EnumWire.Text

def digit (n : Nat) : Char :=
  if n < 10 then Char.ofNat (48 + n) else Char.ofNat (87 + n)

/-- The digits of a number in a base, the most significant first. -/
def digits (base : Nat) (n : Nat) : Text :=
  if base ≤ 1 ∨ n < base then [digit n] else digits base (n / base) ++ [digit (n % base)]
termination_by n
decreasing_by
  rename_i h
  rw [not_or, Nat.not_le, Nat.not_lt] at h
  exact Nat.div_lt_self (by omega) h.1

def ofNat (n : Nat) : Text := digits 10 n

def ofInt : Int → Text
  | .ofNat n => ofNat n
  | .negSucc n => '-' :: ofNat (n + 1)

def digitValue? (c : Char) : Option Nat :=
  if c.isDigit then some (c.toNat - 48) else none

/-- The number that a text of decimal digits stands for, continuing one that was read before it. -/
def valueFrom : Nat → Text → Option Nat
  | acc, [] => some acc
  | acc, c :: rest => (digitValue? c).bind fun d => valueFrom (10 * acc + d) rest

def toNat? (t : Text) : Option Nat :=
  if t = [] then none else valueFrom 0 t

def toInt? : Text → Option Int
  | '-' :: rest => (toNat? rest).map fun n => -(n : Int)
  | t => (toNat? t).map Int.ofNat

theorem digitValue?_digit {n : Nat} (h : n < 10) : digitValue? (digit n) = some n := by
  have : n = 0 ∨ n = 1 ∨ n = 2 ∨ n = 3 ∨ n = 4 ∨ n = 5 ∨ n = 6 ∨ n = 7 ∨ n = 8 ∨ n = 9 := by omega
  rcases this with rfl | rfl | rfl | rfl | rfl | rfl | rfl | rfl | rfl | rfl <;> decide

theorem valueFrom_append (acc : Nat) (t u : Text) :
    valueFrom acc (t ++ u) = (valueFrom acc t).bind fun n => valueFrom n u := by
  induction t generalizing acc with
  | nil => rfl
  | cons c t ih =>
    simp only [List.cons_append, valueFrom, Option.bind_assoc]
    congr 1
    funext d
    exact ih _

theorem digits_ne_nil (base n : Nat) : digits base n ≠ [] := by
  rw [digits]
  split <;> simp

theorem valueFrom_ofNat (n : Nat) : valueFrom 0 (ofNat n) = some n := by
  unfold ofNat
  induction n using Nat.strongRecOn with
  | ind n ih =>
    rw [digits]
    split
    · rename_i h
      have hn : n < 10 := by omega
      simp [valueFrom, digitValue?_digit hn]
    · rename_i h
      have hn : ¬ n < 10 := fun hlt => h (Or.inr hlt)
      rw [valueFrom_append, ih (n / 10) (by omega)]
      simp only [Option.bind_some, valueFrom, digitValue?_digit (Nat.mod_lt n (by decide : 0 < 10)),
        Option.some.injEq]
      omega

theorem toNat?_ofNat (n : Nat) : toNat? (ofNat n) = some n := by
  have h : ofNat n ≠ [] := digits_ne_nil 10 n
  rw [toNat?, if_neg h, valueFrom_ofNat]

end EnumWire.Text
