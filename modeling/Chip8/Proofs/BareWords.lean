import Chip8.Proofs.Obstacles

/-!
# Words in bare numbers

The operands of an `Instruction` cannot be out of range, and its words are read nibble by nibble
with divisions. Here both are done as a processor would do them: nibbles and registers are bytes,
addresses are words, fields are shifted and masked out of a word and back into it, and the
instruction is the first of thirty-five overlapping patterns that fits. Nothing keeps an operand in
range but what the decoder does.

**The decoder is exact and loses nothing** (`Instruction.decode_exact`). It answers with an
instruction exactly if that is in range and its pattern is the word, and with the fault exactly if
the word is the pattern of none. `Instruction.bare` carries the machine's own instructions over, and
both ways of reading agree on every word (`Instruction.decode_bare`): what an instruction is written
as is read as that instruction (`instruction?_bare`), and each pattern of the ordered match is one
of the catalogue (`catalogued_of_instruction?`), so no case hides another.
-/

set_option autoImplicit false

namespace Chip8

namespace Bare

/-- A word taken apart, each nibble in a byte that has room for more. -/
structure Opcode where
  family : UInt8
  x : UInt8
  y : UInt8
  n : UInt8
deriving DecidableEq

namespace Opcode

def byte (o : Opcode) : UInt8 := o.y <<< 4 ||| o.n

def address (o : Opcode) : UInt16 := o.x.toUInt16 <<< 8 ||| o.byte.toUInt16

def word (o : Opcode) : UInt16 := o.family.toUInt16 <<< 12 ||| o.address

def ofWord (w : UInt16) : Opcode :=
  let high := (w >>> 8).toUInt8
  let low := w.toUInt8
  ⟨high >>> 4, high &&& 0xF, low >>> 4, low &&& 0xF⟩

/-- Is every nibble a nibble? -/
def InRange (o : Opcode) : Prop := o.family < 16 ∧ o.x < 16 ∧ o.y < 16 ∧ o.n < 16

end Opcode

inductive Condition where
  | byteIs (x byte : UInt8)
  | byteIsNot (x byte : UInt8)
  | same (x y : UInt8)
  | differ (x y : UInt8)
  | keyDown (x : UInt8)
  | keyUp (x : UInt8)
deriving DecidableEq

/-- An instruction whose operands are bare numbers: a register or a height could be any byte and an
address any word. -/
inductive Instruction where
  | sys (target : UInt16)
  | clear
  | ret
  | jump (target : UInt16)
  | call (target : UInt16)
  | skipIf (condition : Condition)
  | setByte (x byte : UInt8)
  | addByte (x byte : UInt8)
  | arith (op : ArithOp) (x y : UInt8)
  | setIndex (target : UInt16)
  | jumpOffset (target : UInt16)
  | random (x mask : UInt8)
  | draw (x y height : UInt8)
  | readDelay (x : UInt8)
  | awaitKey (x : UInt8)
  | setDelay (x : UInt8)
  | setSound (x : UInt8)
  | addIndex (x : UInt8)
  | pointGlyph (x : UInt8)
  | storeDecimal (x : UInt8)
  | storeRegisters (x : UInt8)
  | loadRegisters (x : UInt8)
deriving DecidableEq

/-- The instruction that an opcode means, if it means one. The first case that fits decides. -/
def Opcode.instruction? (o : Opcode) : Option Instruction :=
  match o.family, o.x, o.y, o.n with
  | 0x0, 0x0, 0xE, 0x0 => some .clear
  | 0x0, 0x0, 0xE, 0xE => some .ret
  | 0x0, _, _, _ => some (.sys o.address)
  | 0x1, _, _, _ => some (.jump o.address)
  | 0x2, _, _, _ => some (.call o.address)
  | 0x3, x, _, _ => some (.skipIf (.byteIs x o.byte))
  | 0x4, x, _, _ => some (.skipIf (.byteIsNot x o.byte))
  | 0x5, x, y, 0x0 => some (.skipIf (.same x y))
  | 0x6, x, _, _ => some (.setByte x o.byte)
  | 0x7, x, _, _ => some (.addByte x o.byte)
  | 0x8, x, y, 0x0 => some (.arith .copy x y)
  | 0x8, x, y, 0x1 => some (.arith .or x y)
  | 0x8, x, y, 0x2 => some (.arith .and x y)
  | 0x8, x, y, 0x3 => some (.arith .xor x y)
  | 0x8, x, y, 0x4 => some (.arith .add x y)
  | 0x8, x, y, 0x5 => some (.arith .sub x y)
  | 0x8, x, y, 0x6 => some (.arith .shiftRight x y)
  | 0x8, x, y, 0x7 => some (.arith .subFrom x y)
  | 0x8, x, y, 0xE => some (.arith .shiftLeft x y)
  | 0x9, x, y, 0x0 => some (.skipIf (.differ x y))
  | 0xA, _, _, _ => some (.setIndex o.address)
  | 0xB, _, _, _ => some (.jumpOffset o.address)
  | 0xC, x, _, _ => some (.random x o.byte)
  | 0xD, x, y, n => some (.draw x y n)
  | 0xE, x, 0x9, 0xE => some (.skipIf (.keyDown x))
  | 0xE, x, 0xA, 0x1 => some (.skipIf (.keyUp x))
  | 0xF, x, 0x0, 0x7 => some (.readDelay x)
  | 0xF, x, 0x0, 0xA => some (.awaitKey x)
  | 0xF, x, 0x1, 0x5 => some (.setDelay x)
  | 0xF, x, 0x1, 0x8 => some (.setSound x)
  | 0xF, x, 0x1, 0xE => some (.addIndex x)
  | 0xF, x, 0x2, 0x9 => some (.pointGlyph x)
  | 0xF, x, 0x3, 0x3 => some (.storeDecimal x)
  | 0xF, x, 0x5, 0x5 => some (.storeRegisters x)
  | 0xF, x, 0x6, 0x5 => some (.loadRegisters x)
  | _, _, _, _ => none

/-- The instruction that the word fetched from `pc` means; the fault names both. -/
def decode (w pc : UInt16) : Except Fault Instruction :=
  match (Opcode.ofWord w).instruction? with
  | some ins => .ok ins
  | none => .error (.unknownOpcode w pc)

/-! ## The patterns -/

/-- A digit at the place of `x`. -/
def atX (x : UInt8) : UInt16 := 0x100 * x.toUInt16

/-- A digit at the place of `y`. -/
def atY (y : UInt8) : UInt16 := 0x10 * y.toUInt16

/-- The patterns `8XY0` to `8XYE`, with zeros for the operands. -/
def arithPattern : ArithOp → UInt16
  | .copy => 0x8000
  | .or => 0x8001
  | .and => 0x8002
  | .xor => 0x8003
  | .add => 0x8004
  | .sub => 0x8005
  | .shiftRight => 0x8006
  | .subFrom => 0x8007
  | .shiftLeft => 0x800E

def Condition.word : Condition → UInt16
  | byteIs x b => 0x3000 + atX x + b.toUInt16
  | byteIsNot x b => 0x4000 + atX x + b.toUInt16
  | same x y => 0x5000 + atX x + atY y
  | differ x y => 0x9000 + atX x + atY y
  | keyDown x => 0xE09E + atX x
  | keyUp x => 0xE0A1 + atX x

namespace Instruction

/-- The pattern of an instruction with its operands in their places. -/
def word : Instruction → UInt16
  | sys a => 0x0000 + a
  | clear => 0x00E0
  | ret => 0x00EE
  | jump a => 0x1000 + a
  | call a => 0x2000 + a
  | skipIf c => c.word
  | setByte x b => 0x6000 + atX x + b.toUInt16
  | addByte x b => 0x7000 + atX x + b.toUInt16
  | arith op x y => arithPattern op + atX x + atY y
  | setIndex a => 0xA000 + a
  | jumpOffset a => 0xB000 + a
  | random x mask => 0xC000 + atX x + mask.toUInt16
  | draw x y height => 0xD000 + atX x + atY y + height.toUInt16
  | readDelay x => 0xF007 + atX x
  | awaitKey x => 0xF00A + atX x
  | setDelay x => 0xF015 + atX x
  | setSound x => 0xF018 + atX x
  | addIndex x => 0xF01E + atX x
  | pointGlyph x => 0xF029 + atX x
  | storeDecimal x => 0xF033 + atX x
  | storeRegisters x => 0xF055 + atX x
  | loadRegisters x => 0xF065 + atX x

end Instruction

def Condition.InRange : Condition → Prop
  | byteIs x _ | byteIsNot x _ | keyDown x | keyUp x => x < 16
  | same x y | differ x y => x < 16 ∧ y < 16

namespace Instruction

/-- Is every register and height a nibble, and every address below 4096? -/
def InRange : Instruction → Prop
  | clear | ret => True
  | sys a | jump a | call a | setIndex a | jumpOffset a => a < 0x1000
  | skipIf c => c.InRange
  | arith _ x y => x < 16 ∧ y < 16
  | draw x y height => x < 16 ∧ y < 16 ∧ height < 16
  | setByte x _ | addByte x _ | random x _ | readDelay x | awaitKey x | setDelay x | setSound x
  | addIndex x | pointGlyph x | storeDecimal x | storeRegisters x | loadRegisters x => x < 16

/-- Is there a word for the instruction? Two addresses of `sys` would have to share theirs with
`clear` and `ret`. -/
def HasWord (ins : Instruction) : Prop := ins ≠ sys 0x0E0 ∧ ins ≠ sys 0x0EE

end Instruction

/-! ## Opcodes in numbers -/

namespace Opcode

theorem ext_toNat {o p : Opcode} (hfamily : o.family.toNat = p.family.toNat)
    (hx : o.x.toNat = p.x.toNat) (hy : o.y.toNat = p.y.toNat) (hn : o.n.toNat = p.n.toNat) :
    o = p := by
  cases o
  cases p
  simp only [UInt8.toNat_inj] at hfamily hx hy hn
  simp only [hfamily, hx, hy, hn]

/-- Shifting and masking are dividing. -/
theorem toNat_ofWord (w : UInt16) :
    (ofWord w).family.toNat = w.toNat / 4096 ∧ (ofWord w).x.toNat = w.toNat / 256 % 16 ∧
      (ofWord w).y.toNat = w.toNat / 16 % 16 ∧ (ofWord w).n.toNat = w.toNat % 16 := by
  have hw := w.toNat_lt
  have hhigh : (w >>> 8).toUInt8.toNat = w.toNat / 256 % 256 := by
    rw [UInt16.toNat_toUInt8, UInt16.toNat_shiftRight]
    exact congrArg (· % 256) (Nat.shiftRight_eq_div_pow w.toNat 8)
  have hlow : w.toUInt8.toNat = w.toNat % 256 := UInt16.toNat_toUInt8 w
  have upper : ∀ b : UInt8, (b >>> 4).toNat = b.toNat / 16 := fun b =>
    (UInt8.toNat_shiftRight b 4).trans (Nat.shiftRight_eq_div_pow b.toNat 4)
  have lower : ∀ b : UInt8, (b &&& 0xF).toNat = b.toNat % 16 := fun b => by
    rw [UInt8.toNat_and]
    exact Nat.and_two_pow_sub_one_eq_mod b.toNat 4
  refine ⟨?_, ?_, ?_, ?_⟩
  · show ((w >>> 8).toUInt8 >>> 4).toNat = _
    rw [upper, hhigh]
    omega
  · show ((w >>> 8).toUInt8 &&& 0xF).toNat = _
    rw [lower, hhigh]
    omega
  · show (w.toUInt8 >>> 4).toNat = _
    rw [upper, hlow]
    omega
  · show (w.toUInt8 &&& 0xF).toNat = _
    rw [lower, hlow]
    omega

theorem inRange_ofWord (w : UInt16) : (ofWord w).InRange := by
  obtain ⟨hfamily, hx, hy, hn⟩ := toNat_ofWord w
  have hw := w.toNat_lt
  unfold InRange
  simp only [UInt8.lt_iff_toNat_lt]
  rw [hfamily, hx, hy, hn, show (16 : UInt8).toNat = 16 from rfl]
  omega

/-- What is shifted to the left makes room for what is put there. -/
theorem shiftLeft_or {a b k : Nat} (hb : b < 1 <<< k) : a <<< k ||| b = a * 1 <<< k + b := by
  rw [Nat.one_shiftLeft] at hb ⊢
  rw [← Nat.shiftLeft_add_eq_or_of_lt hb, Nat.shiftLeft_eq]

variable {o : Opcode} (h : o.InRange)

include h

theorem toNat_byte : o.byte.toNat = o.y.toNat * 16 + o.n.toNat := by
  obtain ⟨-, -, hy, hn⟩ := h
  have hy : o.y.toNat < 16 := hy
  have hn : o.n.toNat < 16 := hn
  have hshift : (o.y <<< 4).toNat = o.y.toNat <<< 4 := by
    rw [UInt8.toNat_shiftLeft]
    refine Nat.mod_eq_of_lt ?_
    show o.y.toNat <<< 4 < 256
    rw [Nat.shiftLeft_eq]
    omega
  rw [byte, UInt8.toNat_or, hshift]
  exact shiftLeft_or hn

theorem toNat_address : o.address.toNat = o.x.toNat * 256 + o.byte.toNat := by
  have hx : o.x.toNat < 16 := h.2.1
  have hshift : (o.x.toUInt16 <<< 8).toNat = o.x.toNat <<< 8 := by
    rw [UInt16.toNat_shiftLeft, UInt8.toNat_toUInt16]
    refine Nat.mod_eq_of_lt ?_
    show o.x.toNat <<< 8 < 65536
    rw [Nat.shiftLeft_eq]
    omega
  rw [address, UInt16.toNat_or, hshift, UInt8.toNat_toUInt16]
  exact shiftLeft_or o.byte.toNat_lt

theorem toNat_word : o.word.toNat = o.family.toNat * 4096 + o.address.toNat := by
  have hfamily : o.family.toNat < 16 := h.1
  have hx : o.x.toNat < 16 := h.2.1
  have hbyte := o.byte.toNat_lt
  have haddress := toNat_address h
  have hshift : (o.family.toUInt16 <<< 12).toNat = o.family.toNat <<< 12 := by
    rw [UInt16.toNat_shiftLeft, UInt8.toNat_toUInt16]
    refine Nat.mod_eq_of_lt ?_
    show o.family.toNat <<< 12 < 65536
    rw [Nat.shiftLeft_eq]
    omega
  rw [word, UInt16.toNat_or, hshift]
  refine shiftLeft_or ?_
  show o.address.toNat < 4096
  omega

theorem ofWord_word : ofWord o.word = o := by
  obtain ⟨hfamily, hx, hy, hn⟩ := toNat_ofWord o.word
  have hword := toNat_word h
  have haddress := toNat_address h
  have hbyte := toNat_byte h
  have bounds : o.family.toNat < 16 ∧ o.x.toNat < 16 ∧ o.y.toNat < 16 ∧ o.n.toNat < 16 := h
  refine ext_toNat ?_ ?_ ?_ ?_
  · omega
  · omega
  · omega
  · omega

omit h

theorem word_ofWord (w : UInt16) : (ofWord w).word = w := by
  have h := inRange_ofWord w
  obtain ⟨hfamily, hx, hy, hn⟩ := toNat_ofWord w
  have hword := toNat_word h
  have haddress := toNat_address h
  have hbyte := toNat_byte h
  apply UInt16.toNat_inj.mp
  omega

end Opcode

end Bare

/-! ## The bare numbers of the machine's own words -/

namespace Nibbles

/-- The nibbles as an opcode. -/
def bare (b : Nibbles) : Bare.Opcode where
  family := .ofNat b.family
  x := .ofNat b.x
  y := .ofNat b.y
  n := .ofNat b.n

theorem toNat_bare (k : Fin 16) : (UInt8.ofNat k).toNat = k := by
  have hk := k.isLt
  rw [UInt8.toNat_ofNat']
  exact Nat.mod_eq_of_lt (by omega)

theorem bare_lt (k : Fin 16) : UInt8.ofNat k < 16 := by
  rw [UInt8.lt_iff_toNat_lt, toNat_bare]
  exact k.isLt

theorem toNat_bareAddress (a : Address) : (UInt16.ofNat a).toNat = a := by
  have ha := a.isLt
  rw [UInt16.toNat_ofNat']
  exact Nat.mod_eq_of_lt (by omega)

theorem bare_eq_iff {k : Fin 16} {v : UInt8} : UInt8.ofNat k = v ↔ k.val = v.toNat := by
  rw [← UInt8.toNat_inj, toNat_bare]

theorem bare_ofWord (w : UInt16) : (ofWord w).bare = .ofWord w := by
  obtain ⟨hfamily, hx, hy, hn⟩ := Bare.Opcode.toNat_ofWord w
  refine Bare.Opcode.ext_toNat ?_ ?_ ?_ ?_
  · rw [hfamily]
    exact toNat_bare _
  · rw [hx]
    exact toNat_bare _
  · rw [hy]
    exact toNat_bare _
  · rw [hn]
    exact toNat_bare _

variable (b : Nibbles)

theorem inRange_bare : b.bare.InRange :=
  ⟨bare_lt _, bare_lt _, bare_lt _, bare_lt _⟩

theorem byte_bare : b.bare.byte = b.byte := by
  apply UInt8.toNat_inj.mp
  rw [Bare.Opcode.toNat_byte b.inRange_bare, toNat_byte]
  simp only [bare, toNat_bare]

theorem address_bare : b.bare.address = UInt16.ofNat b.address := by
  apply UInt16.toNat_inj.mp
  rw [Bare.Opcode.toNat_address b.inRange_bare, byte_bare, toNat_byte, toNat_bareAddress]
  simp only [bare, toNat_bare, address]
  omega

/-- What is made of the address of a word is made of the address that was put there. -/
theorem some_address (f : Fin 16) (a : Address) (make : UInt16 → Bare.Instruction) :
    some (make (ofAddress f a).bare.address) = some (make (.ofNat a)) := by
  rw [address_bare, address_ofAddress]

theorem some_byte (f : Fin 16) (x : Register) (b : UInt8) (make : UInt8 → Bare.Instruction) :
    some (make (ofByte f x b).bare.byte) = some (make b) := by
  rw [byte_bare, byte_ofByte]

/-! ### Patterns filled in -/

theorem toNat_atX (x : Register) : (Bare.atX (.ofNat x)).toNat = 256 * x := by
  have hx := x.isLt
  rw [Bare.atX, UInt16.toNat_mul, UInt8.toNat_toUInt16, toNat_bare]
  exact Nat.mod_eq_of_lt (show 256 * x.val < 65536 by omega)

theorem toNat_atY (y : Register) : (Bare.atY (.ofNat y)).toNat = 16 * y := by
  have hy := y.isLt
  rw [Bare.atY, UInt16.toNat_mul, UInt8.toNat_toUInt16, toNat_bare]
  exact Nat.mod_eq_of_lt (show 16 * y.val < 65536 by omega)

variable {pattern : UInt16} (f : Fin 16)

theorem add_address (a : Address) (hp : pattern.toNat = f * 4096) :
    pattern + UInt16.ofNat a = (ofAddress f a).word := by
  have ha := a.isLt
  have hf := f.isLt
  apply UInt16.toNat_inj.mp
  rw [toNat_word, UInt16.toNat_add, toNat_bareAddress, hp]
  simp only [ofAddress]
  omega

theorem add_register_byte (x : Register) (b : UInt8) (hp : pattern.toNat = f * 4096) :
    pattern + Bare.atX (.ofNat x) + b.toUInt16 = (ofByte f x b).word := by
  have hb := b.toNat_lt
  have hf := f.isLt
  apply UInt16.toNat_inj.mp
  rw [toNat_word, UInt16.toNat_add, UInt16.toNat_add, toNat_atX, UInt8.toNat_toUInt16, hp]
  simp only [ofByte]
  omega

theorem add_register (x : Register) (b : UInt8) (hp : pattern.toNat = f * 4096 + b.toNat) :
    pattern + Bare.atX (.ofNat x) = (ofByte f x b).word := by
  have hb := b.toNat_lt
  have hf := f.isLt
  apply UInt16.toNat_inj.mp
  rw [toNat_word, UInt16.toNat_add, toNat_atX, hp]
  simp only [ofByte]
  omega

theorem add_registers (x y : Register) (n : Fin 16) (hp : pattern.toNat = f * 4096 + n) :
    pattern + Bare.atX (.ofNat x) + Bare.atY (.ofNat y) = (mk f x y n).word := by
  have hf := f.isLt
  apply UInt16.toNat_inj.mp
  rw [toNat_word, UInt16.toNat_add, UInt16.toNat_add, toNat_atX, toNat_atY, hp]
  simp only
  omega

theorem add_registers_nibble (x y : Register) (n : Fin 16) (hp : pattern.toNat = f * 4096) :
    pattern + Bare.atX (.ofNat x) + Bare.atY (.ofNat y) + (UInt8.ofNat n).toUInt16 =
      (mk f x y n).word := by
  have hf := f.isLt
  apply UInt16.toNat_inj.mp
  rw [toNat_word, UInt16.toNat_add, UInt16.toNat_add, UInt16.toNat_add, toNat_atX, toNat_atY,
    UInt8.toNat_toUInt16, toNat_bare, hp]
  simp only
  omega

end Nibbles

namespace Condition

def bare : Condition → Bare.Condition
  | byteIs x b => .byteIs (.ofNat x) b
  | byteIsNot x b => .byteIsNot (.ofNat x) b
  | same x y => .same (.ofNat x) (.ofNat y)
  | differ x y => .differ (.ofNat x) (.ofNat y)
  | keyDown x => .keyDown (.ofNat x)
  | keyUp x => .keyUp (.ofNat x)

def ofBare : Bare.Condition → Condition
  | .byteIs x b => byteIs (.ofNat 16 x.toNat) b
  | .byteIsNot x b => byteIsNot (.ofNat 16 x.toNat) b
  | .same x y => same (.ofNat 16 x.toNat) (.ofNat 16 y.toNat)
  | .differ x y => differ (.ofNat 16 x.toNat) (.ofNat 16 y.toNat)
  | .keyDown x => keyDown (.ofNat 16 x.toNat)
  | .keyUp x => keyUp (.ofNat 16 x.toNat)

end Condition

namespace Instruction

/-- The instruction with its operands as bare numbers. -/
def bare : Instruction → Bare.Instruction
  | sys a => .sys (.ofNat a)
  | clear => .clear
  | ret => .ret
  | jump a => .jump (.ofNat a)
  | call a => .call (.ofNat a)
  | skipIf c => .skipIf c.bare
  | setByte x b => .setByte (.ofNat x) b
  | addByte x b => .addByte (.ofNat x) b
  | arith op x y => .arith op (.ofNat x) (.ofNat y)
  | setIndex a => .setIndex (.ofNat a)
  | jumpOffset a => .jumpOffset (.ofNat a)
  | random x mask => .random (.ofNat x) mask
  | draw x y height => .draw (.ofNat x) (.ofNat y) (.ofNat height)
  | readDelay x => .readDelay (.ofNat x)
  | awaitKey x => .awaitKey (.ofNat x)
  | setDelay x => .setDelay (.ofNat x)
  | setSound x => .setSound (.ofNat x)
  | addIndex x => .addIndex (.ofNat x)
  | pointGlyph x => .pointGlyph (.ofNat x)
  | storeDecimal x => .storeDecimal (.ofNat x)
  | storeRegisters x => .storeRegisters (.ofNat x)
  | loadRegisters x => .loadRegisters (.ofNat x)

theorem word_bare (ins : Instruction) : ins.bare.word = ins.word := by
  cases ins with
  | clear | ret => rfl
  | sys a => exact Nibbles.add_address 0x0 a rfl
  | jump a => exact Nibbles.add_address 0x1 a rfl
  | call a => exact Nibbles.add_address 0x2 a rfl
  | setIndex a => exact Nibbles.add_address 0xA a rfl
  | jumpOffset a => exact Nibbles.add_address 0xB a rfl
  | setByte x b => exact Nibbles.add_register_byte 0x6 x b rfl
  | addByte x b => exact Nibbles.add_register_byte 0x7 x b rfl
  | random x b => exact Nibbles.add_register_byte 0xC x b rfl
  | draw x y n => exact Nibbles.add_registers_nibble 0xD x y n rfl
  | arith op x y => cases op <;> exact Nibbles.add_registers 0x8 x y _ rfl
  | skipIf c =>
    cases c with
    | byteIs x b => exact Nibbles.add_register_byte 0x3 x b rfl
    | byteIsNot x b => exact Nibbles.add_register_byte 0x4 x b rfl
    | same x y => exact Nibbles.add_registers 0x5 x y 0 rfl
    | differ x y => exact Nibbles.add_registers 0x9 x y 0 rfl
    | keyDown x | keyUp x => exact Nibbles.add_register 0xE x _ rfl
  | readDelay x | awaitKey x | setDelay x | setSound x | addIndex x | pointGlyph x | storeDecimal x
  | storeRegisters x | loadRegisters x => exact Nibbles.add_register 0xF x _ rfl

theorem instruction?_sys {o : Bare.Opcode} (hfamily : o.family = 0)
    (hother : ¬ (o.x = 0 ∧ o.y = 0xE ∧ (o.n = 0 ∨ o.n = 0xE))) :
    o.instruction? = some (.sys o.address) := by
  unfold Bare.Opcode.instruction?
  rw [hfamily]
  split
  case h_3 => rfl
  -- The two words above it are excluded, and below it are the other families.
  all_goals simp_all

/-- What the machine's own instructions are written as is read as them. -/
theorem instruction?_bare {ins : Instruction} (h : ins.bare.HasWord) :
    ins.nibbles.bare.instruction? = some ins.bare := by
  cases ins with
  | sys a =>
    refine (instruction?_sys rfl ?_).trans (Nibbles.some_address 0x0 a .sys)
    rintro ⟨hx, hy, hn⟩
    have hx := Nibbles.bare_eq_iff.mp hx
    have hy := Nibbles.bare_eq_iff.mp hy
    have hx : a.val / 256 = 0 := hx
    have hy : a.val / 16 % 16 = 14 := hy
    rcases hn with hn | hn
    · have hn : a.val % 16 = 0 := Nibbles.bare_eq_iff.mp hn
      have ha : a.val = 0x0E0 := by omega
      exact h.1 (congrArg (fun a => Bare.Instruction.sys (.ofNat a)) ha)
    · have hn : a.val % 16 = 14 := Nibbles.bare_eq_iff.mp hn
      have ha : a.val = 0x0EE := by omega
      exact h.2 (congrArg (fun a => Bare.Instruction.sys (.ofNat a)) ha)
  | jump a => exact Nibbles.some_address 0x1 a .jump
  | call a => exact Nibbles.some_address 0x2 a .call
  | setIndex a => exact Nibbles.some_address 0xA a .setIndex
  | jumpOffset a => exact Nibbles.some_address 0xB a .jumpOffset
  | setByte x b => exact Nibbles.some_byte 0x6 x b (.setByte (.ofNat x))
  | addByte x b => exact Nibbles.some_byte 0x7 x b (.addByte (.ofNat x))
  | random x b => exact Nibbles.some_byte 0xC x b (.random (.ofNat x))
  | skipIf c =>
    cases c with
    | byteIs x b => exact Nibbles.some_byte 0x3 x b fun b => .skipIf (.byteIs (.ofNat x) b)
    | byteIsNot x b => exact Nibbles.some_byte 0x4 x b fun b => .skipIf (.byteIsNot (.ofNat x) b)
    | same _ _ | differ _ _ | keyDown _ | keyUp _ => rfl
  | arith op x y => cases op <;> rfl
  | clear | ret | draw _ _ _ | readDelay _ | awaitKey _ | setDelay _ | setSound _ | addIndex _
  | pointGlyph _ | storeDecimal _ | storeRegisters _ | loadRegisters _ => rfl


/-- Each case fits words of the catalogue alone. -/
theorem catalogued_of_instruction? {b : Nibbles} {ins : Bare.Instruction}
    (h : b.bare.instruction? = some ins) : b.Catalogued := by
  unfold Bare.Opcode.instruction? at h
  split at h
  case h_36 => cases h
  all_goals
    simp only [Nibbles.bare, Nibbles.bare_eq_iff, UInt8.reduceToNat] at *
    simp +decide [Nibbles.Catalogued, Nibbles.wholeFamilies, Nibbles.byLastNibble,
      Nibbles.byLowerByte, Nibbles.byte, Fin.ext_iff, -Fin.val_eq_zero_iff, *]

theorem eq_sys_of_bare {ins : Instruction} {a : Address} (h : ins.bare = .sys (.ofNat a)) :
    ins = sys a := by
  cases ins with
  | sys a' =>
    have hnat := congrArg UInt16.toNat (Bare.Instruction.sys.inj h)
    rw [Nibbles.toNat_bareAddress, Nibbles.toNat_bareAddress] at hnat
    exact congrArg sys (Fin.ext hnat)
  | _ => cases h

/-- What is read has a word: the two that have none are never read. -/
theorem hasWord_of_ofNibbles? {b : Nibbles} {ins : Instruction} (h : ofNibbles? b = some ins) :
    ins.bare.HasWord := by
  have hb := nibbles_of_ofNibbles? h
  constructor
  · intro hsys
    cases eq_sys_of_bare (show ins.bare = .sys (.ofNat (0x0E0 : Address)) from hsys)
    rw [← hb] at h
    cases h
  · intro hsys
    cases eq_sys_of_bare (show ins.bare = .sys (.ofNat (0x0EE : Address)) from hsys)
    rw [← hb] at h
    cases h

/-- **The first case that fits is the case that the families lead to.** -/
theorem instruction?_bare_nibbles (b : Nibbles) :
    b.bare.instruction? = (ofNibbles? b).map bare := by
  cases hins : ofNibbles? b with
  | some ins =>
    have hread := instruction?_bare (hasWord_of_ofNibbles? hins)
    rwa [nibbles_of_ofNibbles? hins] at hread
  | none =>
    cases hbare : b.bare.instruction? with
    | none => rfl
    | some i => exact absurd hins (ofNibbles?_ne_none (catalogued_of_instruction? hbare))

/-! ## Bare instructions in range -/

theorem inRange_bare (ins : Instruction) : ins.bare.InRange := by
  have hreg := Nibbles.bare_lt
  have haddr : ∀ a : Address, UInt16.ofNat a < 0x1000 := fun a => by
    rw [UInt16.lt_iff_toNat_lt, Nibbles.toNat_bareAddress]
    exact a.isLt
  cases ins with
  | clear | ret => trivial
  | sys a | jump a | call a | setIndex a | jumpOffset a => exact haddr a
  | skipIf c =>
    cases c with
    | byteIs x _ | byteIsNot x _ | keyDown x | keyUp x => exact hreg x
    | same x y | differ x y => exact ⟨hreg x, hreg y⟩
  | arith _ x y => exact ⟨hreg x, hreg y⟩
  | draw x y height => exact ⟨hreg x, hreg y, hreg height⟩
  | setByte x _ | addByte x _ | random x _ | readDelay x | awaitKey x | setDelay x | setSound x
  | addIndex x | pointGlyph x | storeDecimal x | storeRegisters x | loadRegisters x => exact hreg x

/-- The instruction made of bare numbers, each cut down to its range. -/
def ofBare : Bare.Instruction → Instruction
  | .sys a => sys (.ofNat 4096 a.toNat)
  | .clear => clear
  | .ret => ret
  | .jump a => jump (.ofNat 4096 a.toNat)
  | .call a => call (.ofNat 4096 a.toNat)
  | .skipIf c => skipIf (.ofBare c)
  | .setByte x b => setByte (.ofNat 16 x.toNat) b
  | .addByte x b => addByte (.ofNat 16 x.toNat) b
  | .arith op x y => arith op (.ofNat 16 x.toNat) (.ofNat 16 y.toNat)
  | .setIndex a => setIndex (.ofNat 4096 a.toNat)
  | .jumpOffset a => jumpOffset (.ofNat 4096 a.toNat)
  | .random x mask => random (.ofNat 16 x.toNat) mask
  | .draw x y height => draw (.ofNat 16 x.toNat) (.ofNat 16 y.toNat) (.ofNat 16 height.toNat)
  | .readDelay x => readDelay (.ofNat 16 x.toNat)
  | .awaitKey x => awaitKey (.ofNat 16 x.toNat)
  | .setDelay x => setDelay (.ofNat 16 x.toNat)
  | .setSound x => setSound (.ofNat 16 x.toNat)
  | .addIndex x => addIndex (.ofNat 16 x.toNat)
  | .pointGlyph x => pointGlyph (.ofNat 16 x.toNat)
  | .storeDecimal x => storeDecimal (.ofNat 16 x.toNat)
  | .storeRegisters x => storeRegisters (.ofNat 16 x.toNat)
  | .loadRegisters x => loadRegisters (.ofNat 16 x.toNat)

theorem register_of_lt {x : UInt8} (h : x < 16) : UInt8.ofNat (Fin.ofNat 16 x.toNat) = x := by
  rw [Fin.val_ofNat, Nat.mod_eq_of_lt (show x.toNat < 16 from h), UInt8.ofNat_toNat]

theorem address_of_lt {a : UInt16} (h : a < 0x1000) :
    UInt16.ofNat (Fin.ofNat 4096 a.toNat) = a := by
  rw [Fin.val_ofNat, Nat.mod_eq_of_lt (show a.toNat < 4096 from h), UInt16.ofNat_toNat]

/-- In range nothing is cut. -/
theorem bare_ofBare {i : Bare.Instruction} (h : i.InRange) : (ofBare i).bare = i := by
  cases i with
  | clear | ret => rfl
  | sys a | jump a | call a | setIndex a | jumpOffset a =>
    simp only [ofBare, bare, address_of_lt h]
  | skipIf c =>
    cases c with
    | byteIs x _ | byteIsNot x _ | keyDown x | keyUp x =>
      simp only [ofBare, Condition.ofBare, bare, Condition.bare, register_of_lt h]
    | same x y | differ x y =>
      simp only [ofBare, Condition.ofBare, bare, Condition.bare, register_of_lt h.1,
        register_of_lt h.2]
  | arith _ x y => simp only [ofBare, bare, register_of_lt h.1, register_of_lt h.2]
  | draw x y height =>
    simp only [ofBare, bare, register_of_lt h.1, register_of_lt h.2.1, register_of_lt h.2.2]
  | setByte x _ | addByte x _ | random x _ | readDelay x | awaitKey x | setDelay x | setSound x
  | addIndex x | pointGlyph x | storeDecimal x | storeRegisters x | loadRegisters x =>
    simp only [ofBare, bare, register_of_lt h]

/-! ## Decoding -/

variable (w pc : UInt16)

/-- The machine reads words as the ordered match does. -/
theorem decode_bare : Bare.decode w pc = (decode w pc).map bare := by
  unfold Bare.decode decode
  rw [← Nibbles.bare_ofWord, instruction?_bare_nibbles]
  cases ofNibbles? (.ofWord w) with
  | none => rfl
  | some ins => rfl

/-- The word at a place is read as an instruction, or it is the fault. -/
theorem decode_cases : (∃ ins, decode w pc = .ok ins) ∨
    decode w pc = .error (.unknownOpcode w pc) := by
  unfold decode
  cases ofNibbles? (.ofWord w) with
  | none => exact Or.inr rfl
  | some ins => exact Or.inl ⟨ins, rfl⟩

theorem ofNibbles?_iff {b : Nibbles} {ins : Instruction} :
    ofNibbles? b = some ins ↔ ins.bare.HasWord ∧ ins.nibbles = b := by
  constructor
  · intro h
    exact ⟨hasWord_of_ofNibbles? h, nibbles_of_ofNibbles? h⟩
  · rintro ⟨hword, rfl⟩
    refine ofNibbles?_nibbles ?_ ?_
    · rintro rfl
      exact hword.1 rfl
    · rintro rfl
      exact hword.2 rfl

theorem decode_eq_ok {ins : Instruction} :
    decode w pc = .ok ins ↔ ins.bare.HasWord ∧ ins.word = w := by
  have hword : ins.nibbles = .ofWord w ↔ ins.word = w := by
    constructor
    · intro h
      rw [word, h, Nibbles.word_ofWord]
    · rintro rfl
      exact (Nibbles.ofWord_word _).symm
  rw [← hword, ← ofNibbles?_iff]
  unfold decode
  cases ofNibbles? (.ofWord w) with
  | none => simp
  | some ins' => simp

theorem bare_decode_eq_ok {i : Bare.Instruction} :
    Bare.decode w pc = .ok i ↔ i.InRange ∧ i.HasWord ∧ i.word = w := by
  rw [decode_bare]
  constructor
  · intro h
    obtain ⟨ins, hins, rfl⟩ := Except.map_eq_ok.mp h
    obtain ⟨hword, hw⟩ := (decode_eq_ok w pc).mp hins
    exact ⟨ins.inRange_bare, hword, ins.word_bare.trans hw⟩
  · rintro ⟨hrange, hword, hw⟩
    have hbare := bare_ofBare hrange
    rw [← hbare] at hword hw ⊢
    rw [word_bare] at hw
    rw [(decode_eq_ok w pc).mpr ⟨hword, hw⟩]
    rfl

/-- What no instruction is written as is the fault. -/
theorem decode_eq_error :
    decode w pc = .error (.unknownOpcode w pc) ↔
      ∀ ins : Instruction, ins.bare.HasWord → ins.word ≠ w := by
  constructor
  · intro herror ins hword hw
    rw [(decode_eq_ok w pc).mpr ⟨hword, hw⟩] at herror
    cases herror
  · intro hnone
    rcases decode_cases w pc with ⟨ins, hins⟩ | herror
    · obtain ⟨hword, hw⟩ := (decode_eq_ok w pc).mp hins
      exact absurd hw (hnone ins hword)
    · exact herror

theorem bare_decode_eq_error :
    Bare.decode w pc = .error (.unknownOpcode w pc) ↔
      ∀ i : Bare.Instruction, i.InRange → i.HasWord → i.word ≠ w := by
  constructor
  · intro herror i hrange hword hw
    rw [(bare_decode_eq_ok w pc).mpr ⟨hrange, hword, hw⟩] at herror
    cases herror
  · intro hnone
    have herror : decode w pc = .error (.unknownOpcode w pc) := by
      refine (decode_eq_error w pc).mpr fun ins hword hw => ?_
      exact hnone ins.bare ins.inRange_bare hword (ins.word_bare.trans hw)
    rw [decode_bare, herror]
    rfl

/-- **Decoding is exact and loses nothing.** Read as bare numbers, a word means an instruction in
range whose pattern it is, and any such instruction is what its word means; a word that is the
pattern of none is the fault that names it. The machine reads the same instructions, and taking a
word apart and putting it together are inverse to each other. -/
theorem decode_exact :
    (∀ i : Bare.Instruction, Bare.decode w pc = .ok i ↔ i.InRange ∧ i.HasWord ∧ i.word = w) ∧
      (Bare.decode w pc = .error (.unknownOpcode w pc) ↔
        ∀ i : Bare.Instruction, i.InRange → i.HasWord → i.word ≠ w) ∧
      Bare.decode w pc = (decode w pc).map bare ∧
      (∀ ins, decode w pc = .ok ins ↔ ins.bare.HasWord ∧ ins.word = w) ∧
      (decode w pc = .error (.unknownOpcode w pc) ↔
        ∀ ins : Instruction, ins.bare.HasWord → ins.word ≠ w) ∧
      (Bare.Opcode.ofWord w).word = w ∧
      ∀ o : Bare.Opcode, o.InRange → Bare.Opcode.ofWord o.word = o := by
  exact ⟨fun _ => bare_decode_eq_ok w pc, bare_decode_eq_error w pc, decode_bare w pc,
    fun _ => decode_eq_ok w pc, decode_eq_error w pc, Bare.Opcode.word_ofWord w,
    fun _ h => Bare.Opcode.ofWord_word h⟩

/-- A shift keeps the register that it does not read; `812F` is nothing at all. -/
theorem shift_keeps_second_register :
    Bare.decode 0x8AB6 0x200 = .ok (.arith .shiftRight 0xA 0xB) ∧
      (∀ i : Bare.Instruction, i.InRange → i.HasWord → i.word ≠ 0x812F) ∧
      Bare.Opcode.ofWord (Bare.Opcode.word ⟨0xD, 0x1, 0x2, 0x5⟩) = ⟨0xD, 0x1, 0x2, 0x5⟩ := by
  refine ⟨?_, ?_, ?_⟩
  · have hrange : (Bare.Instruction.arith .shiftRight 0xA 0xB).InRange := by
      constructor <;> decide
    have hword : (Bare.Instruction.arith .shiftRight 0xA 0xB).HasWord := by
      constructor <;> decide
    exact ((decode_exact 0x8AB6 0x200).1 _).mpr ⟨hrange, hword, rfl⟩
  · exact (decode_exact 0x812F 0x200).2.1.mp rfl
  · have hrange : (Bare.Opcode.mk 0xD 0x1 0x2 0x5).InRange := by
      refine ⟨?_, ?_, ?_, ?_⟩ <;> decide
    exact (decode_exact 0x812F 0x200).2.2.2.2.2.2 _ hrange

end Instruction

end Chip8
