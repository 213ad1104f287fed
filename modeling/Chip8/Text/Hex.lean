/-!
# Hexadecimal text

Numbers in base sixteen with upper-case digits, padded with zeros to a least width. A number
that needs more digits than the width keeps all of them, so nothing is ever cut off.
-/

set_option autoImplicit false

namespace Chip8.Hex

/-- The upper-case digit of a number below sixteen; larger numbers are taken modulo sixteen. -/
def digit (d : Nat) : Char :=
  if d % 16 < 10 then Char.ofNat (48 + d % 16) else Char.ofNat (55 + d % 16)

/-- The digits of `n`, most significant first, at least `width` of them and at least one. -/
def digits (width n : Nat) : List Char :=
  if n < 16 ∧ width ≤ 1 then [digit n]
  else digits (width - 1) (n / 16) ++ [digit n]
termination_by n + width
decreasing_by omega

/-- The digits alone, as they stand in a dump of registers. -/
def bare (width n : Nat) : String := String.ofList (digits width n)

/-- The digits after `0x`, as a number stands in a sentence. -/
def marked (width n : Nat) : String := "0x" ++ bare width n

/-! ## Reading them back -/

/-- The value of a digit in either case. -/
def value? (c : Char) : Option Nat :=
  if '0' ≤ c ∧ c ≤ '9' then some (c.toNat - 48)
  else if 'A' ≤ c ∧ c ≤ 'F' then some (c.toNat - 55)
  else if 'a' ≤ c ∧ c ≤ 'f' then some (c.toNat - 87)
  else none

theorem value?_digit {d : Nat} (hd : d < 16) : value? (digit d) = some d := by
  revert d; decide

theorem digit_mod (n : Nat) : digit (n % 16) = digit n := by
  simp [digit]

end Chip8.Hex
