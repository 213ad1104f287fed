import Chip8.Instruction.Nibbles

/-!
# Instructions

The instruction set, grouped by what an instruction does: six conditions under which the next
instruction is skipped, nine operations on two registers, and the rest one by one. Operands
hold only what a word can hold, so no instruction names a register or an address that the
machine does not have.
-/

set_option autoImplicit false

namespace Chip8

/-- What a skipping instruction asks. -/
inductive Condition where
  /-- A register holds a given byte. -/
  | byteIs (x : Register) (byte : UInt8)
  /-- A register holds anything but a given byte. -/
  | byteIsNot (x : Register) (byte : UInt8)
  /-- Two registers hold the same byte. -/
  | same (x y : Register)
  /-- Two registers hold different bytes. -/
  | differ (x y : Register)
  /-- The key that a register names is down. -/
  | keyDown (x : Register)
  /-- The key that a register names is up. -/
  | keyUp (x : Register)
deriving DecidableEq

/-- The operations on two registers; each leaves its result in the first. -/
inductive ArithOp where
  | copy | or | and | xor
  /-- Sum; the flag is the carry. -/
  | add
  /-- First less second; the flag says that nothing was borrowed. -/
  | sub
  /-- First halved; the flag is the bit shifted out. The second register is named but not read. -/
  | shiftRight
  /-- Second less first; the flag says that nothing was borrowed. -/
  | subFrom
  /-- First doubled; the flag is the bit shifted out. The second register is named but not read. -/
  | shiftLeft
deriving DecidableEq

/-- One instruction with its operands. -/
inductive Instruction where
  /-- A routine of the machine that the interpreter once ran on; it does nothing. -/
  | sys (target : Address)
  /-- Darkens the frame. -/
  | clear
  /-- Returns from a call. -/
  | ret
  | jump (target : Address)
  | call (target : Address)
  /-- Skips the next instruction where the condition holds. -/
  | skipIf (condition : Condition)
  | setByte (x : Register) (byte : UInt8)
  /-- Adds a byte to a register and leaves the flag alone. -/
  | addByte (x : Register) (byte : UInt8)
  | arith (op : ArithOp) (x y : Register)
  | setIndex (target : Address)
  /-- Jumps to an address plus `V0`. -/
  | jumpOffset (target : Address)
  /-- Puts a random byte, masked, into a register. -/
  | random (x : Register) (mask : UInt8)
  /-- Draws a sprite of `height` rows at the position that two registers hold. -/
  | draw (x y : Register) (height : Fin 16)
  | readDelay (x : Register)
  /-- Waits for a key to go down and puts its number into a register. -/
  | awaitKey (x : Register)
  | setDelay (x : Register)
  | setSound (x : Register)
  /-- Adds a register to the index. -/
  | addIndex (x : Register)
  /-- Points the index at the glyph of a register's low digit. -/
  | pointGlyph (x : Register)
  /-- Stores the three decimal digits of a register. -/
  | storeDecimal (x : Register)
  /-- Stores `V0` up to a register. -/
  | storeRegisters (x : Register)
  /-- Loads `V0` up to a register. -/
  | loadRegisters (x : Register)
deriving DecidableEq

end Chip8
