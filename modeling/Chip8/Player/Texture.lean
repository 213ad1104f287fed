import Chip8.Frame

/-!
# Textures

A frame as an image of 24-bit pixels: red, green and blue, one byte each, all at full strength
where a pixel is lit and all zero where it is dark. The rows follow one another from the top. In
the buffer of a texture they may be further apart than they are long; what lies between them
belongs to the owner of the buffer and is left alone.
-/

set_option autoImplicit false

namespace Chip8.Texture

/-- Bytes of a pixel. -/
def channels : Nat := 3

/-- Bytes of a row of pixels. -/
def rowBytes : Nat := Frame.width * channels

/-- The strength of a pixel. -/
def intensity (lit : Bool) : UInt8 := if lit then 255 else 0

/-- The bytes of one row. -/
def ofRow (r : Row) : List UInt8 :=
  (List.range Frame.width).flatMap fun x => List.replicate channels (intensity (r.getMsbD x))

/-- The bytes of a frame, its rows without gaps. -/
def ofFrame (f : Frame) : List UInt8 := f.rows.toList.flatMap ofRow

/-- Puts bytes into a buffer from `start` on. -/
def fill (buffer : Array UInt8) (start : Nat) : List UInt8 → Array UInt8
  | [] => buffer
  | b :: rest => fill (buffer.setIfInBounds start b) (start + 1) rest

/-- Puts rows into a buffer, each `pitch` bytes after the one before. -/
def fillRows (buffer : Array UInt8) (pitch start : Nat) : List Row → Array UInt8
  | [] => buffer
  | r :: rest => fillRows (fill buffer start (ofRow r)) pitch (start + pitch) rest

/-- Puts a frame into the buffer of a texture whose rows are `pitch` bytes apart. -/
def copyTo (f : Frame) (pitch : Nat) (buffer : Array UInt8) : Array UInt8 :=
  fillRows buffer pitch 0 f.rows.toList

end Chip8.Texture
