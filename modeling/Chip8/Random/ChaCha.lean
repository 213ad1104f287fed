/-!
# ChaCha with twelve rounds

A block of sixteen words is made from a key of eight words and the number of the block. The words
are mixed by additions, exclusive ors and rotations, four at a time, first along the columns and
then along the diagonals of a square of four by four; six such double rounds are twelve rounds.
The mixed words are then added to those that the mixing started from.
-/

set_option autoImplicit false

namespace Chip8.ChaCha

/-- Sixteen words, the rows of the square one after the other. -/
abbrev Block := Vector UInt32 16

/-- The eight words that a stream hangs on. -/
abbrev Key := Vector UInt32 8

/-- Rotates a word to the left. -/
def rotateLeft (x amount : UInt32) : UInt32 := (x <<< amount) ||| (x >>> (32 - amount))

/-- Adds word `b` to word `a`, then mixes the sum into word `d`. -/
def mix (s : Block) (a b d : Fin 16) (amount : UInt32) : Block :=
  let s := s.set a (s[a] + s[b])
  s.set d (rotateLeft (s[d] ^^^ s[a]) amount)

/-- Mixes a line of four words of the square. -/
def quarterRound (s : Block) (a b c d : Fin 16) : Block :=
  mix (mix (mix (mix s a b d 16) c d b 12) a b d 8) c d b 7

/-- The place of a word in the block; rows and columns go around at four. -/
def place (row column : Nat) : Fin 16 := ⟨row % 4 * 4 + column % 4, by omega⟩

/-- Mixes four lines of the square, each from the top down and moving `slant` columns to the
right with each row: the columns for slant zero, the diagonals for slant one. -/
def round (slant : Nat) (s : Block) : Block :=
  (List.range 4).foldl (fun s column => quarterRound s (place 0 column) (place 1 (column + slant))
    (place 2 (column + 2 * slant)) (place 3 (column + 3 * slant))) s

/-- One round along the columns and one along the diagonals. -/
def doubleRound (s : Block) : Block := round 1 (round 0 s)

/-- What the mixing starts from: four constants, the key, the number of the block as two words
with the lower first, and two zeros. -/
def start (key : Key) (number : UInt64) : Block :=
  let constants : Vector UInt32 4 := #v[0x61707865, 0x3320646e, 0x79622d32, 0x6b206574]
  let counter : Vector UInt32 4 := #v[number.toUInt32, (number >>> 32).toUInt32, 0, 0]
  constants ++ key ++ counter

/-- Block `number` of the stream of a key. -/
def block (key : Key) (number : UInt64) : Block :=
  let first := start key number
  Vector.zipWith (· + ·) (Nat.repeat doubleRound 6 first) first

end Chip8.ChaCha
