/-!
# The frame

64 by 32 pixels, each lit or dark. The frame is a torus: a sprite that runs off one side comes
in on the other.

A row is a word of 64 bits with its leftmost pixel first. A sprite is a list of bytes, one a row
of eight pixels, and drawing flips the pixels that the sprite lights. A sprite has at most
fifteen rows, fewer than the frame, so each row of the frame is met at most once; hence it makes
no difference whether a collision is looked for in the frame before the drawing (`Frame.collides`)
or row by row while it goes on.
-/

set_option autoImplicit false

namespace Chip8

/-- 64 pixels, the leftmost in the most significant bit. -/
abbrev Row := BitVec 64

/-- A byte of a sprite as a row: its eight pixels from column `left` on, wrapping around. -/
def Row.ofByte (b : UInt8) (left : Nat) : Row :=
  (b.toBitVec.setWidth 64 <<< 56).rotateRight (left % 64)

/-- Column `x` of the row shows the bit of the byte that lies as far to the right of its first bit
as `x` lies, around the torus, to the right of `left`; further to the right there is none. -/
theorem Row.getMsbD_ofByte (b : UInt8) (left x : Nat) (hx : x < 64) :
    (ofByte b left).getMsbD x = b.toBitVec.getMsbD ((x + 64 - left % 64) % 64) := by
  have hl : left % 64 < 64 := Nat.mod_lt _ (by decide)
  simp only [ofByte, BitVec.getMsbD_rotateRight, hx, decide_true, Bool.true_and, Nat.mod_mod]
  split
  · next h =>
    rw [show (64 + x - left % 64) % 64 = (x + 64 - left % 64) % 64 by congr 1; omega]
    simp [BitVec.getMsbD_setWidth]
  · next h =>
    rw [show (x + 64 - left % 64) % 64 = x - left % 64 by omega]
    simp [BitVec.getMsbD_setWidth]

/-- The picture: 32 rows, the topmost first. -/
structure Frame where
  rows : Vector Row 32
deriving DecidableEq

namespace Frame

/-- Pixels in a row. -/
def width : Nat := 64

/-- Rows in a frame. -/
def height : Nat := 32

/-- The frame with no pixel lit. -/
def dark : Frame := ⟨Vector.replicate 32 0⟩

/-- The row at height `y`, counted around the torus. -/
def row (f : Frame) (y : Nat) : Row := f.rows[y % 32]

/-- Is the pixel in column `x` of row `y` lit? -/
def pixel (f : Frame) (x : Fin 64) (y : Fin 32) : Bool := f.rows[y].getMsbD x

/-- Flips the pixels of row `y` that the mask lights. -/
def flipRow (f : Frame) (y : Nat) (mask : Row) : Frame :=
  ⟨f.rows.set (y % 32) (f.row y ^^^ mask)⟩

/-- Flips the pixels that a sprite lights with its upper left corner at `left`, `top`. -/
def draw (f : Frame) (left top : Nat) : List UInt8 → Frame
  | [] => f
  | b :: rest => draw (f.flipRow top (Row.ofByte b left)) left (top + 1) rest

/-- Does a sprite light a pixel that is lit already? -/
def collides (f : Frame) (left top : Nat) : List UInt8 → Bool
  | [] => false
  | b :: rest => f.row top &&& Row.ofByte b left != 0 || collides f left (top + 1) rest

@[simp] theorem pixel_dark (x : Fin 64) (y : Fin 32) : dark.pixel x y = false := by
  simp [pixel, dark]

theorem getMsbD_row (f : Frame) (x : Fin 64) (y : Fin 32) :
    (f.row y).getMsbD x = f.pixel x y := by
  simp [row, pixel, Nat.mod_eq_of_lt y.isLt]

/-- Flipping touches one row, and in it the pixels of the mask. -/
theorem pixel_flipRow (f : Frame) (y : Nat) (mask : Row) (px : Fin 64) (py : Fin 32) :
    (f.flipRow y mask).pixel px py =
      (f.pixel px py ^^ (decide (y % 32 = py) && mask.getMsbD px)) := by
  simp only [pixel, flipRow, row, Fin.getElem_fin, Vector.getElem_set]
  by_cases h : y % 32 = py.val <;> simp [h]

/-- A frame is given by its pixels. -/
theorem ext_pixel {f g : Frame} (h : ∀ x y, f.pixel x y = g.pixel x y) : f = g := by
  obtain ⟨fr⟩ := f
  obtain ⟨gr⟩ := g
  congr 1
  apply Vector.ext
  intro y hy
  apply BitVec.eq_of_getElem_eq
  intro x hx
  have := h ⟨63 - x, by omega⟩ ⟨y, hy⟩
  simpa [pixel, BitVec.getMsbD, show 63 - x < 64 by omega, show 63 - (63 - x) = x by omega,
    BitVec.getLsbD_eq_getElem hx] using this

/-- Puts a row in place of row `y`. -/
def setRow (f : Frame) (y : Fin 32) (r : Row) : Frame := ⟨f.rows.set y r⟩

/-- The rows in which a later frame differs from an earlier one, from the top. -/
def changedRows (earlier later : Frame) : List (Fin 32 × Row) :=
  (List.finRange 32).filterMap fun y =>
    if earlier.rows[y] = later.rows[y] then none else some (y, later.rows[y])

/-- The frame as lines of text, a lit pixel as `#` and a dark one as a point. -/
def lines (f : Frame) : List String :=
  f.rows.toList.map fun r =>
    String.ofList ((List.range width).map fun x => if r.getMsbD x then '#' else '.')

end Frame

end Chip8
