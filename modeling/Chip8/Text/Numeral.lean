/-!
# Numerals

Decimal numbers as a user types them: digits, any number of zeros in front, and at most one sign.
Nothing else is allowed, neither blanks nor marks between the digits.
-/

set_option autoImplicit false

namespace Chip8.Numeral

/-- The value of a decimal digit. -/
def digit? (c : Char) : Option Nat :=
  if '0' ≤ c ∧ c ≤ '9' then some (c.toNat - '0'.toNat) else none

/-- Reads digits behind a number that has been read already. -/
def continue? (soFar : Nat) : List Char → Option Nat
  | [] => some soFar
  | c :: rest => (digit? c).bind fun d => continue? (soFar * 10 + d) rest

/-- Reads one digit or more. -/
def digits? : List Char → Option Nat
  | [] => none
  | cs => continue? 0 cs

/-- Reads a number that may have a plus sign. -/
def natural? : List Char → Option Nat
  | '+' :: rest => digits? rest
  | cs => digits? cs

/-- Reads a number that may have a plus or a minus sign. -/
def integer? : List Char → Option Int
  | '-' :: rest => (digits? rest).map fun n => -(n : Int)
  | cs => (natural? cs).map fun n => (n : Int)

end Chip8.Numeral
