import Chip8.Text.Hex

/-!
# Faults

Everything that can go wrong while a program is loaded or run. A program that is too large is
refused when it is loaded; each of the others stops the machine that runs into it.
-/

set_option autoImplicit false

namespace Chip8

/-- Why a program was refused or a machine stopped. -/
inductive Fault where
  /-- A program of `size` bytes where only `max` bytes fit. -/
  | programTooLarge (size max : Nat)
  /-- A word that is no instruction, fetched from `pc`. -/
  | unknownOpcode (word pc : UInt16)
  /-- A call at `pc` with the call stack full. -/
  | stackOverflow (pc : UInt16)
  /-- A return at `pc` with the call stack empty. -/
  | stackUnderflow (pc : UInt16)
  /-- An access past the end of memory; `address` is the first byte of it that does not exist. -/
  | outOfBounds (address : Nat)
deriving DecidableEq

/-- The sentence that tells a user of the fault. -/
def Fault.message : Fault → String
  | programTooLarge size max =>
    "ROM is too large (" ++ toString size ++ " bytes), max size is " ++ toString max ++ " bytes"
  | unknownOpcode word pc =>
    "Unknown opcode " ++ Hex.marked 4 word.toNat ++ " at pc " ++ Hex.marked 4 pc.toNat
  | stackOverflow pc => "Stack overflow calling from pc " ++ Hex.marked 4 pc.toNat
  | stackUnderflow pc => "Stack underflow returning from pc " ++ Hex.marked 4 pc.toNat
  | outOfBounds address => "Memory access out of bounds at address " ++ Hex.marked 4 address

end Chip8
