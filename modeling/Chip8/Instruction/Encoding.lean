import Chip8.Instruction.Basic
import Chip8.Fault

/-!
# Instructions as words

`Instruction.nibbles` writes an instruction as a word and `Instruction.ofNibbles?` reads one. The
word of an instruction is given case by case by the pattern of the instruction set; the reader
goes from the family down, so the two are independent of each other, and it is a fact about both
that only the word of an instruction is read as that instruction (`nibbles_of_ofNibbles?`).

The other way there is one limit. Two words of family zero mean `clear` and `ret`; with every
other address that family means `sys`. So `sys 0x0E0` and `sys 0x0EE` have no word of their own;
every other instruction is read back from its word (`ofNibbles?_nibbles`).
-/

set_option autoImplicit false

namespace Chip8

/-- The lowest nibble by which a word names an operation on two registers. -/
def ArithOp.selector : ArithOp → Fin 16
  | copy => 0x0
  | or => 0x1
  | and => 0x2
  | xor => 0x3
  | add => 0x4
  | sub => 0x5
  | shiftRight => 0x6
  | subFrom => 0x7
  | shiftLeft => 0xE

/-- The operation that a lowest nibble names. -/
def ArithOp.ofSelector? (n : Fin 16) : Option ArithOp :=
  match n with
  | 0x0 => some copy
  | 0x1 => some or
  | 0x2 => some and
  | 0x3 => some xor
  | 0x4 => some add
  | 0x5 => some sub
  | 0x6 => some shiftRight
  | 0x7 => some subFrom
  | 0xE => some shiftLeft
  | _ => none

/-- The pattern of a skip. -/
def Condition.nibbles : Condition → Nibbles
  | byteIs x b => .ofByte 0x3 x b
  | byteIsNot x b => .ofByte 0x4 x b
  | same x y => ⟨0x5, x, y, 0x0⟩
  | differ x y => ⟨0x9, x, y, 0x0⟩
  | keyDown x => .ofByte 0xE x 0x9E
  | keyUp x => .ofByte 0xE x 0xA1

namespace Instruction

/-- The pattern of an instruction, filled with its operands. -/
def nibbles : Instruction → Nibbles
  | sys a => .ofAddress 0x0 a
  | clear => .ofAddress 0x0 0x0E0
  | ret => .ofAddress 0x0 0x0EE
  | jump a => .ofAddress 0x1 a
  | call a => .ofAddress 0x2 a
  | skipIf c => c.nibbles
  | setByte x b => .ofByte 0x6 x b
  | addByte x b => .ofByte 0x7 x b
  | arith op x y => ⟨0x8, x, y, op.selector⟩
  | setIndex a => .ofAddress 0xA a
  | jumpOffset a => .ofAddress 0xB a
  | random x mask => .ofByte 0xC x mask
  | draw x y height => ⟨0xD, x, y, height⟩
  | readDelay x => .ofByte 0xF x 0x07
  | awaitKey x => .ofByte 0xF x 0x0A
  | setDelay x => .ofByte 0xF x 0x15
  | setSound x => .ofByte 0xF x 0x18
  | addIndex x => .ofByte 0xF x 0x1E
  | pointGlyph x => .ofByte 0xF x 0x29
  | storeDecimal x => .ofByte 0xF x 0x33
  | storeRegisters x => .ofByte 0xF x 0x55
  | loadRegisters x => .ofByte 0xF x 0x65

/-- The word of an instruction. -/
def word (ins : Instruction) : UInt16 := ins.nibbles.word

/-! ## Reading -/

/-- Family zero: two words have a meaning of their own. -/
def ofSystem (a : Address) : Instruction :=
  if a = 0x0E0 then clear else if a = 0x0EE then ret else sys a

/-- The key conditions, told apart by the lower byte. -/
def ofKeyByte? (x : Register) (byte : UInt8) : Option Instruction :=
  match byte with
  | 0x9E => some (skipIf (.keyDown x))
  | 0xA1 => some (skipIf (.keyUp x))
  | _ => none

/-- The instructions on one register, told apart by the lower byte. -/
def ofRegisterByte? (x : Register) (byte : UInt8) : Option Instruction :=
  match byte with
  | 0x07 => some (readDelay x)
  | 0x0A => some (awaitKey x)
  | 0x15 => some (setDelay x)
  | 0x18 => some (setSound x)
  | 0x1E => some (addIndex x)
  | 0x29 => some (pointGlyph x)
  | 0x33 => some (storeDecimal x)
  | 0x55 => some (storeRegisters x)
  | 0x65 => some (loadRegisters x)
  | _ => none

/-- The instruction that a word means, if it means one. -/
def ofNibbles? (b : Nibbles) : Option Instruction :=
  match b.family with
  | 0x0 => some (ofSystem b.address)
  | 0x1 => some (jump b.address)
  | 0x2 => some (call b.address)
  | 0x3 => some (skipIf (.byteIs b.x b.byte))
  | 0x4 => some (skipIf (.byteIsNot b.x b.byte))
  | 0x5 => if b.n = 0 then some (skipIf (.same b.x b.y)) else none
  | 0x6 => some (setByte b.x b.byte)
  | 0x7 => some (addByte b.x b.byte)
  | 0x8 => (ArithOp.ofSelector? b.n).map fun op => arith op b.x b.y
  | 0x9 => if b.n = 0 then some (skipIf (.differ b.x b.y)) else none
  | 0xA => some (setIndex b.address)
  | 0xB => some (jumpOffset b.address)
  | 0xC => some (random b.x b.byte)
  | 0xD => some (draw b.x b.y b.n)
  | 0xE => ofKeyByte? b.x b.byte
  -- The sixteenth family, `0xF`, is what is left.
  | _ => ofRegisterByte? b.x b.byte

/-! ## Writing and reading agree -/

theorem ofSelector?_selector (op : ArithOp) : ArithOp.ofSelector? op.selector = some op := by
  cases op <;> rfl

theorem selector_of_ofSelector? {n : Fin 16} {op : ArithOp}
    (h : ArithOp.ofSelector? n = some op) : op.selector = n := by
  revert n op; decide

/-- What was written is read back, for each instruction that has a word of its own. -/
theorem ofNibbles?_nibbles {ins : Instruction} (clear_free : ins ≠ sys 0x0E0)
    (ret_free : ins ≠ sys 0x0EE) : ofNibbles? ins.nibbles = some ins := by
  cases ins with
  | sys a =>
    have h₁ : a ≠ 0x0E0 := fun h => clear_free (by rw [h])
    have h₂ : a ≠ 0x0EE := fun h => ret_free (by rw [h])
    simp [nibbles, ofNibbles?, ofSystem, h₁, h₂]
  | skipIf c => cases c <;> simp [nibbles, Condition.nibbles, ofNibbles?, ofKeyByte?]
  | arith op x y => simp [nibbles, ofNibbles?, ofSelector?_selector]
  | _ => simp [nibbles, ofNibbles?, ofSystem, ofRegisterByte?]

theorem nibbles_ofSystem (a : Address) : (ofSystem a).nibbles = .ofAddress 0x0 a := by
  unfold ofSystem
  split
  · next h => rw [h]; rfl
  · split
    · next h => rw [h]; rfl
    · rfl

theorem nibbles_of_ofKeyByte? {x : Register} {byte : UInt8} {ins : Instruction}
    (h : ofKeyByte? x byte = some ins) : ins.nibbles = .ofByte 0xE x byte := by
  unfold ofKeyByte? at h
  split at h <;> cases h <;> rfl

theorem nibbles_of_ofRegisterByte? {x : Register} {byte : UInt8} {ins : Instruction}
    (h : ofRegisterByte? x byte = some ins) : ins.nibbles = .ofByte 0xF x byte := by
  unfold ofRegisterByte? at h
  split at h <;> cases h <;> rfl

/-- Only the word of an instruction is read as that instruction. -/
theorem nibbles_of_ofNibbles? {b : Nibbles} {ins : Instruction} (h : ofNibbles? b = some ins) :
    ins.nibbles = b := by
  obtain ⟨f, x, y, n⟩ := b
  have ha := Nibbles.ofAddress_address ⟨f, x, y, n⟩
  have hb := Nibbles.ofByte_byte ⟨f, x, y, n⟩
  unfold ofNibbles? at h
  split at h <;> rename_i hf
  case h_1 => cases h; cases hf; rw [nibbles_ofSystem]; exact ha
  case h_6 | h_10 =>
    split at h
    · next hn => cases h; cases hf; cases hn; rfl
    · cases h
  case h_9 =>
    obtain ⟨op, hop, rfl⟩ := Option.map_eq_some_iff.mp h
    cases hf
    simp [nibbles, selector_of_ofSelector? hop]
  case h_14 => cases h; cases hf; rfl
  case h_15 => cases hf; rw [nibbles_of_ofKeyByte? h]; exact hb
  case h_16 =>
    have hF : f = 0xF := by grind
    cases hF
    rw [nibbles_of_ofRegisterByte? h]; exact hb
  case h_2 | h_3 | h_11 | h_12 => cases h; cases hf; exact ha
  all_goals cases h; cases hf; exact hb

/-! ## Decoding -/

/-- The instruction that the word fetched from `pc` means; the fault names both. -/
def decode (w pc : UInt16) : Except Fault Instruction :=
  match ofNibbles? (.ofWord w) with
  | some ins => .ok ins
  | none => .error (.unknownOpcode w pc)

end Instruction

end Chip8
