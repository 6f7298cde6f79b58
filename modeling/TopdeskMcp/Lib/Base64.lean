import TopdeskMcp.Lib.Utf8

/-!
# Base64

Three bytes become four digits of six bits, and what is left over at the end is padded.
Decoding undoes encoding (`decode_encode`), so different bytes have different texts.
-/

namespace Base64

def alphabet : List Char :=
  "ABCDEFGHIJKLMNOPQRSTUVWXYZabcdefghijklmnopqrstuvwxyz0123456789+/".toList

def digit (n : Nat) : Char := alphabet.getD n '='

def value (c : Char) : Option Nat := alphabet.idxOf? c

def encode : Bytes → List Char
  | [] => []
  | [b] => [digit (b.toNat / 4), digit (b.toNat % 4 * 16), '=', '=']
  | [b, c] =>
      [digit (b.toNat / 4), digit (b.toNat % 4 * 16 + c.toNat / 16), digit (c.toNat % 16 * 4), '=']
  | b :: c :: d :: rest =>
      digit (b.toNat / 4) :: digit (b.toNat % 4 * 16 + c.toNat / 16) ::
        digit (c.toNat % 16 * 4 + d.toNat / 64) :: digit (d.toNat % 64) :: encode rest

/-- The bytes of two, three or four digits. -/
def first (w x : Nat) : UInt8 := UInt8.ofNat (w * 4 + x / 16)

def second (x y : Nat) : UInt8 := UInt8.ofNat (x % 16 * 16 + y / 4)

def third (y z : Nat) : UInt8 := UInt8.ofNat (y % 4 * 64 + z)

def decode : List Char → Option Bytes
  | [] => some []
  | w :: x :: y :: z :: rest => do
      let w ← value w
      let x ← value x
      if y = '=' then
        if z = '=' ∧ rest = [] then some [first w x] else none
      else
        let y ← value y
        if z = '=' then
          if rest = [] then some [first w x, second x y] else none
        else
          let z ← value z
          let bytes ← decode rest
          some (first w x :: second x y :: third y z :: bytes)
  | _ => none

set_option maxRecDepth 4000 in
theorem value_digit {n : Nat} (h : n < 64) : value (digit n) = some n := by
  have hall : ∀ n : Fin 64, value (digit n) = some n.val := by decide
  exact hall ⟨n, h⟩

set_option maxRecDepth 4000 in
/-- The padding is no digit. -/
theorem digit_ne_pad {n : Nat} (h : n < 64) : digit n ≠ '=' := by
  have hall : ∀ n : Fin 64, digit n ≠ '=' := by decide
  exact hall ⟨n, h⟩

theorem first_eq (b : UInt8) {x : Nat} (h : x < 16) :
    first (b.toNat / 4) (b.toNat % 4 * 16 + x) = b := by
  have hsum : b.toNat / 4 * 4 + (b.toNat % 4 * 16 + x) / 16 = b.toNat := by omega
  rw [first, hsum, UInt8.ofNat_toNat]

theorem second_eq (w : Nat) (c : UInt8) {y : Nat} (h : y < 4) :
    second (w * 16 + c.toNat / 16) (c.toNat % 16 * 4 + y) = c := by
  have := c.toNat_lt
  have hsum : (w * 16 + c.toNat / 16) % 16 * 16 + (c.toNat % 16 * 4 + y) / 4 = c.toNat := by omega
  rw [second, hsum, UInt8.ofNat_toNat]

theorem third_eq (y : Nat) (d : UInt8) :
    third (y * 4 + d.toNat / 64) (d.toNat % 64) = d := by
  have := d.toNat_lt
  have hsum : (y * 4 + d.toNat / 64) % 4 * 64 + d.toNat % 64 = d.toNat := by omega
  rw [third, hsum, UInt8.ofNat_toNat]

theorem decode_encode (bytes : Bytes) : decode (encode bytes) = some bytes := by
  induction bytes using encode.induct with
  | case1 => rfl
  | case2 b =>
      have hb := b.toNat_lt
      have hfirst := first_eq b (x := 0) (by omega)
      rw [Nat.add_zero] at hfirst
      rw [encode, decode, value_digit (by omega), value_digit (by omega)]
      simp [hfirst]
  | case3 b c =>
      have hb := b.toNat_lt
      have hc := c.toNat_lt
      have hsecond := second_eq (b.toNat % 4) c (y := 0) (by omega)
      rw [Nat.add_zero] at hsecond
      rw [encode, decode, value_digit (by omega), value_digit (by omega), value_digit (by omega)]
      simp [digit_ne_pad (n := c.toNat % 16 * 4) (by omega), hsecond,
        first_eq b (x := c.toNat / 16) (by omega)]
  | case4 b c d rest ih =>
      have hb := b.toNat_lt
      have hc := c.toNat_lt
      have hd := d.toNat_lt
      rw [encode, decode, value_digit (by omega), value_digit (by omega), value_digit (by omega),
        value_digit (by omega), ih]
      simp [digit_ne_pad (n := c.toNat % 16 * 4 + d.toNat / 64) (by omega),
        digit_ne_pad (n := d.toNat % 64) (by omega), third_eq,
        second_eq (b.toNat % 4) c (y := d.toNat / 64) (by omega),
        first_eq b (x := c.toNat / 16) (by omega)]

end Base64
