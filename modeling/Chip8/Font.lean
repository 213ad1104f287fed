/-!
# The font

Sixteen glyphs, the hexadecimal digits, each four pixels wide and five rows tall. A row is one
byte with its pixels in the upper half: the digit zero, for instance, is

    0xF0  ####
    0x90  #  #
    0x90  #  #
    0x90  #  #
    0xF0  ####
-/

set_option autoImplicit false

namespace Chip8.Font

/-- The rows of a glyph. -/
def glyphHeight : Nat := 5

/-- Where the first glyph lies in memory; the others follow it. -/
def start : Nat := 0

/-- The rows of the sixteen glyphs, one glyph a line. -/
def bytes : List UInt8 := [
  0xF0, 0x90, 0x90, 0x90, 0xF0,
  0x20, 0x60, 0x20, 0x20, 0x70,
  0xF0, 0x10, 0xF0, 0x80, 0xF0,
  0xF0, 0x10, 0xF0, 0x10, 0xF0,
  0x90, 0x90, 0xF0, 0x10, 0x10,
  0xF0, 0x80, 0xF0, 0x10, 0xF0,
  0xF0, 0x80, 0xF0, 0x90, 0xF0,
  0xF0, 0x10, 0x20, 0x40, 0x40,
  0xF0, 0x90, 0xF0, 0x90, 0xF0,
  0xF0, 0x90, 0xF0, 0x10, 0xF0,
  0xF0, 0x90, 0xF0, 0x90, 0x90,
  0xE0, 0x90, 0xE0, 0x90, 0xE0,
  0xF0, 0x80, 0x80, 0x80, 0xF0,
  0xE0, 0x90, 0x90, 0x90, 0xE0,
  0xF0, 0x80, 0xF0, 0x80, 0xF0,
  0xF0, 0x80, 0xF0, 0x80, 0x80]

/-- Where the glyph of the low digit of `value` lies. -/
def addressOf (value : UInt8) : UInt16 :=
  UInt16.ofNat (start + value.toNat % 16 * glyphHeight)

/-- Sixteen glyphs of five rows. -/
theorem length_bytes : bytes.length = 16 * glyphHeight := rfl

end Chip8.Font
