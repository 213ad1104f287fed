import Chip8.Instruction.Basic
import Chip8.Text.Hex
import Chip8.Text.Listing

/-!
# Instructions as text

An instruction has two texts. The mnemonic is the line that an assembler would read: a name,
and operands between commas. The listing shows the instruction as a value: the name of its form
and its operands as decimal numbers.

Many instructions share a name (`LD` alone has eleven shapes), so it is the operands that tell
them apart: each operand knows how it is written, and no two of them are written alike.
-/

set_option autoImplicit false

namespace Chip8

/-- What stands after the name in a mnemonic. -/
inductive Operand where
  | register (x : Register)
  | byte (value : UInt8)
  | address (value : Address)
  /-- The height of a sprite, the one number that is written in decimal. -/
  | height (value : Fin 16)
  | index
  /-- The memory that the index points at. -/
  | atIndex
  | delayTimer
  | soundTimer
  | key
  | glyph
  | decimalDigits
deriving DecidableEq

/-- How an operand is written. -/
def Operand.text : Operand → String
  | register x => "V" ++ Hex.bare 1 x
  | byte value => Hex.marked 2 value.toNat
  | address value => Hex.marked 3 value
  | height value => toString value.val
  | index => "I"
  | atIndex => "[I]"
  | delayTimer => "DT"
  | soundTimer => "ST"
  | key => "K"
  | glyph => "F"
  | decimalDigits => "B"

/-- A name and its operands. -/
structure Mnemonic where
  name : String
  operands : List Operand
deriving DecidableEq

/-- The mnemonic on one line: a blank after the name, and a comma and a blank between operands. -/
def Mnemonic.text (m : Mnemonic) : String :=
  match m.operands with
  | [] => m.name
  | operands => m.name ++ " " ++ ", ".intercalate (operands.map Operand.text)

/-- The mnemonic of a skip. -/
def Condition.mnemonic : Condition → Mnemonic
  | byteIs x b => ⟨"SE", [.register x, .byte b]⟩
  | byteIsNot x b => ⟨"SNE", [.register x, .byte b]⟩
  | same x y => ⟨"SE", [.register x, .register y]⟩
  | differ x y => ⟨"SNE", [.register x, .register y]⟩
  | keyDown x => ⟨"SKP", [.register x]⟩
  | keyUp x => ⟨"SKNP", [.register x]⟩

/-- The name of an operation on two registers. -/
def ArithOp.mnemonicName : ArithOp → String
  | copy => "LD"
  | or => "OR"
  | and => "AND"
  | xor => "XOR"
  | add => "ADD"
  | sub => "SUB"
  | shiftRight => "SHR"
  | subFrom => "SUBN"
  | shiftLeft => "SHL"

/-- The mnemonic of an instruction. -/
def Instruction.mnemonic : Instruction → Mnemonic
  | sys a => ⟨"SYS", [.address a]⟩
  | clear => ⟨"CLS", []⟩
  | ret => ⟨"RET", []⟩
  | jump a => ⟨"JP", [.address a]⟩
  | call a => ⟨"CALL", [.address a]⟩
  | skipIf c => c.mnemonic
  | setByte x b => ⟨"LD", [.register x, .byte b]⟩
  | addByte x b => ⟨"ADD", [.register x, .byte b]⟩
  | arith op x y => ⟨op.mnemonicName, [.register x, .register y]⟩
  | setIndex a => ⟨"LD", [.index, .address a]⟩
  | jumpOffset a => ⟨"JP", [.register 0, .address a]⟩
  | random x mask => ⟨"RND", [.register x, .byte mask]⟩
  | draw x y height => ⟨"DRW", [.register x, .register y, .height height]⟩
  | readDelay x => ⟨"LD", [.register x, .delayTimer]⟩
  | awaitKey x => ⟨"LD", [.register x, .key]⟩
  | setDelay x => ⟨"LD", [.delayTimer, .register x]⟩
  | setSound x => ⟨"LD", [.soundTimer, .register x]⟩
  | addIndex x => ⟨"ADD", [.index, .register x]⟩
  | pointGlyph x => ⟨"LD", [.glyph, .register x]⟩
  | storeDecimal x => ⟨"LD", [.decimalDigits, .register x]⟩
  | storeRegisters x => ⟨"LD", [.atIndex, .register x]⟩
  | loadRegisters x => ⟨"LD", [.register x, .atIndex]⟩

/-! ## Listings

The names here are those under which debuggers show the instructions; skips and operations on
two registers are shown under a name each. -/

/-- The field of one register. -/
def Listing.oneRegister (name : String) (x : Register) : Listing := ⟨name, [Listing.number "x" x]⟩

/-- The fields of two registers. -/
def Listing.twoRegisters (name : String) (x y : Register) : Listing :=
  ⟨name, [Listing.number "x" x, Listing.number "y" y]⟩

/-- The fields of a register and a byte. -/
def Listing.registerByte (name : String) (x : Register) (b : UInt8) : Listing :=
  ⟨name, [Listing.number "x" x, Listing.number "byte" b.toNat]⟩

/-- The field of an address. -/
def Listing.target (name : String) (a : Address) : Listing := ⟨name, [Listing.number "addr" a]⟩

/-- The listing of a skip. -/
def Condition.listing : Condition → Listing
  | byteIs x b => .registerByte "SkipEqImm" x b
  | byteIsNot x b => .registerByte "SkipNeqImm" x b
  | same x y => .twoRegisters "SkipEqReg" x y
  | differ x y => .twoRegisters "SkipNeqReg" x y
  | keyDown x => .oneRegister "SkipKeyPressed" x
  | keyUp x => .oneRegister "SkipKeyNotPressed" x

/-- The name under which an operation on two registers is listed. -/
def ArithOp.listingName : ArithOp → String
  | copy => "SetReg"
  | or => "Or"
  | and => "And"
  | xor => "Xor"
  | add => "AddReg"
  | sub => "SubReg"
  | shiftRight => "ShiftRight"
  | subFrom => "SubReverse"
  | shiftLeft => "ShiftLeft"

/-- The listing of an instruction. -/
def Instruction.listing : Instruction → Listing
  | sys a => .target "Sys" a
  | clear => ⟨"Clear", []⟩
  | ret => ⟨"Return", []⟩
  | jump a => .target "Jump" a
  | call a => .target "Call" a
  | skipIf c => c.listing
  | setByte x b => .registerByte "SetImm" x b
  | addByte x b => .registerByte "AddImm" x b
  | arith op x y => .twoRegisters op.listingName x y
  | setIndex a => .target "SetIndex" a
  | jumpOffset a => .target "JumpOffset" a
  | random x mask => .registerByte "Random" x mask
  | draw x y height => ⟨"Draw", [Listing.number "x" x, Listing.number "y" y, Listing.number "height" height]⟩
  | readDelay x => .oneRegister "GetDelay" x
  | awaitKey x => .oneRegister "WaitKey" x
  | setDelay x => .oneRegister "SetDelay" x
  | setSound x => .oneRegister "SetSound" x
  | addIndex x => .oneRegister "AddIndex" x
  | pointGlyph x => .oneRegister "FontChar" x
  | storeDecimal x => .oneRegister "Bcd" x
  | storeRegisters x => .oneRegister "StoreRegisters" x
  | loadRegisters x => .oneRegister "LoadRegisters" x

end Chip8
