import Mathlib.Data.List.Basic

/-!
# Hexadecimal digits

The digits of numbers below sixteen in both cases, and the value of a digit.
-/

namespace Hex

/-- The lower-case digit of `n`. -/
def digit (n : Nat) : Char :=
  if n < 10 then Char.ofNat ('0'.toNat + n) else Char.ofNat ('a'.toNat + (n - 10))

/-- The upper-case digit of `n`. -/
def upperDigit (n : Nat) : Char :=
  if n < 10 then Char.ofNat ('0'.toNat + n) else Char.ofNat ('A'.toNat + (n - 10))

/-- The value of a digit in either case. -/
def value (c : Char) : Option Nat :=
  if '0' ≤ c ∧ c ≤ '9' then some (c.toNat - '0'.toNat)
  else if 'a' ≤ c ∧ c ≤ 'f' then some (c.toNat - 'a'.toNat + 10)
  else if 'A' ≤ c ∧ c ≤ 'F' then some (c.toNat - 'A'.toNat + 10)
  else none

theorem value_digit {n : Nat} (h : n < 16) : value (digit n) = some n := by
  have hall : ∀ n : Fin 16, value (digit n) = some n.val := by decide
  exact hall ⟨n, h⟩

theorem value_upperDigit {n : Nat} (h : n < 16) : value (upperDigit n) = some n := by
  have hall : ∀ n : Fin 16, value (upperDigit n) = some n.val := by decide
  exact hall ⟨n, h⟩

/-- Digits lie between `0` and `f`. -/
theorem value_eq_none {c : Char} (h : c.toNat < '0'.toNat ∨ 'f'.toNat < c.toNat) :
    value c = none := by
  have hle : ∀ d e : Char, d ≤ e ↔ d.toNat ≤ e.toNat := fun _ _ => Iff.rfl
  have h0 : '0'.toNat = 48 := rfl
  have h9 : '9'.toNat = 57 := rfl
  have ha : 'a'.toNat = 97 := rfl
  have hf : 'f'.toNat = 102 := rfl
  have hA : 'A'.toNat = 65 := rfl
  have hF : 'F'.toNat = 70 := rfl
  simp only [value, hle]
  rw [if_neg (by omega), if_neg (by omega), if_neg (by omega)]

/-- The two halves of a byte. -/
theorem nibbles_lt (b : UInt8) : b.toNat / 16 < 16 ∧ b.toNat % 16 < 16 := by
  have := b.toNat_lt
  omega

end Hex
