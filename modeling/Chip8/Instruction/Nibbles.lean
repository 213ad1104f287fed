/-!
# Instruction words

An instruction is one sixteen-bit word, read as four nibbles `family x y n`. The family picks a
group of instructions; `x` and `y` name registers; `y n` together are an immediate byte and
`x y n` an address. Splitting a word and putting it together are inverse to each other
(`Nibbles.word_ofWord`, `Nibbles.ofWord_word`), so nothing of a word is lost in its nibbles.
-/

set_option autoImplicit false

namespace Chip8

/-- The number of one of the registers `V0` to `VF`. -/
abbrev Register := Fin 16

/-- The number of a byte of memory, as an instruction names it. -/
abbrev Address := Fin 4096

/-- Numerals of `Register` are taken modulo sixteen, which is not zero. -/
instance neZero_registers : @NeZero Nat Zero.ofOfNat0 16 := ⟨Nat.succ_ne_zero 15⟩

/-- Numerals of `Address` are taken modulo the size of memory, which is not zero. -/
instance neZero_addresses : @NeZero Nat Zero.ofOfNat0 4096 := ⟨Nat.succ_ne_zero 4095⟩

/-- The four nibbles of an instruction word, most significant first. -/
structure Nibbles where
  family : Fin 16
  x : Register
  y : Register
  n : Fin 16
deriving DecidableEq

namespace Nibbles

/-- The nibbles of a word. -/
def ofWord (w : UInt16) : Nibbles where
  family := ⟨w.toNat / 4096, by have := w.toNat_lt; omega⟩
  x := ⟨w.toNat / 256 % 16, by omega⟩
  y := ⟨w.toNat / 16 % 16, by omega⟩
  n := ⟨w.toNat % 16, by omega⟩

/-- The address in the lower three nibbles. -/
def address (b : Nibbles) : Address := ⟨b.x * 256 + b.y * 16 + b.n, by omega⟩

/-- The immediate byte in the lower two nibbles. -/
def byte (b : Nibbles) : UInt8 := UInt8.ofNat (b.y * 16 + b.n)

/-- The word that the nibbles make up. -/
def word (b : Nibbles) : UInt16 := UInt16.ofNat (b.family * 4096 + b.address)

/-- The word with family `f` and the lower three nibbles of `a`. -/
def ofAddress (f : Fin 16) (a : Address) : Nibbles where
  family := f
  x := ⟨a / 256, by omega⟩
  y := ⟨a / 16 % 16, by omega⟩
  n := ⟨a % 16, by omega⟩

/-- The word with family `f`, register `x` and immediate byte `b`. -/
def ofByte (f : Fin 16) (x : Register) (b : UInt8) : Nibbles where
  family := f
  x := x
  y := ⟨b.toNat / 16, by have := b.toNat_lt; omega⟩
  n := ⟨b.toNat % 16, by omega⟩

/-! ## The two views agree -/

theorem toNat_word (b : Nibbles) :
    b.word.toNat = b.family * 4096 + (b.x * 256 + b.y * 16 + b.n) := by
  have hf := b.family.isLt
  have hx := b.x.isLt
  have hy := b.y.isLt
  have hn := b.n.isLt
  simp only [word, address, UInt16.toNat_ofNat']
  omega

theorem toNat_byte (b : Nibbles) : b.byte.toNat = b.y * 16 + b.n := by
  have hy := b.y.isLt
  have hn := b.n.isLt
  simp only [byte, UInt8.toNat_ofNat']
  omega

@[simp] theorem ofWord_word (b : Nibbles) : ofWord b.word = b := by
  obtain ⟨⟨f, hf⟩, ⟨x, hx⟩, ⟨y, hy⟩, ⟨n, hn⟩⟩ := b
  simp only [ofWord, toNat_word, mk.injEq, Fin.mk.injEq]
  omega

@[simp] theorem word_ofWord (w : UInt16) : (ofWord w).word = w := by
  apply UInt16.toNat_inj.mp
  have := w.toNat_lt
  simp only [toNat_word, ofWord]
  omega

@[simp] theorem address_ofAddress (f : Fin 16) (a : Address) : (ofAddress f a).address = a := by
  apply Fin.ext
  have := a.isLt
  simp only [address, ofAddress]
  omega

@[simp] theorem byte_ofByte (f : Fin 16) (x : Register) (b : UInt8) :
    (ofByte f x b).byte = b := by
  apply UInt8.toNat_inj.mp
  have := b.toNat_lt
  simp only [toNat_byte, ofByte]
  omega

@[simp] theorem family_ofAddress (f : Fin 16) (a : Address) : (ofAddress f a).family = f := rfl

@[simp] theorem family_ofByte (f : Fin 16) (x : Register) (b : UInt8) :
    (ofByte f x b).family = f := rfl

@[simp] theorem x_ofByte (f : Fin 16) (x : Register) (b : UInt8) : (ofByte f x b).x = x := rfl

@[simp] theorem ofAddress_address (b : Nibbles) : ofAddress b.family b.address = b := by
  obtain ⟨⟨f, hf⟩, ⟨x, hx⟩, ⟨y, hy⟩, ⟨n, hn⟩⟩ := b
  simp only [ofAddress, address, mk.injEq, Fin.mk.injEq, true_and]
  omega

@[simp] theorem ofByte_byte (b : Nibbles) : ofByte b.family b.x b.byte = b := by
  obtain ⟨⟨f, hf⟩, ⟨x, hx⟩, ⟨y, hy⟩, ⟨n, hn⟩⟩ := b
  simp only [ofByte, toNat_byte, mk.injEq, Fin.mk.injEq, true_and]
  omega

end Nibbles

end Chip8
