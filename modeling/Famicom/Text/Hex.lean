import Famicom.Word

/-!
# Hexadecimal text

Addresses and bytes are shown in upper-case hexadecimal, padded with zeros to a fixed width.
-/

namespace Famicom.Hex

/-- The hexadecimal digit of a number below sixteen, in upper case. -/
def digit (n : Nat) : Char :=
  if n < 10 then Char.ofNat (n + 48) else Char.ofNat (n + 55)

/-- The last `width` hexadecimal digits of a number. -/
def digits : (width : Nat) → Nat → List Char
  | 0, _ => []
  | width + 1, n => digits width (n / 16) ++ [digit (n % 16)]

/-- A byte as two digits. -/
def byte (b : UInt8) : String := String.ofList (digits 2 b.toNat)

/-- A word as four digits. -/
def word (w : UInt16) : String := String.ofList (digits 4 w.toNat)

/-- The value of a hexadecimal digit in either case. -/
def value? (c : Char) : Option Nat :=
  if '0' ≤ c ∧ c ≤ '9' then some (c.toNat - 48)
  else if 'A' ≤ c ∧ c ≤ 'F' then some (c.toNat - 55)
  else if 'a' ≤ c ∧ c ≤ 'f' then some (c.toNat - 87)
  else none

@[simp] theorem length_digits (width n : Nat) : (digits width n).length = width := by
  induction width generalizing n with
  | zero => rfl
  | succ w ih => simp [digits, ih]

end Famicom.Hex
