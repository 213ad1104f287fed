import Chip8.Random.ChaCha

/-!
# A key from a seed

A seed of 64 bits is spread over the eight words of a key. A linear congruence walks from state
to state, starting at the seed, and each state it comes to gives one word: the state is folded
onto itself, its upper bits are taken, and the uppermost five say by how much the word is
rotated. Nearby seeds so get unrelated keys.
-/

set_option autoImplicit false

namespace Chip8.Random

/-- Rotates a word to the right. -/
def rotateRight (x amount : UInt32) : UInt32 := (x >>> amount) ||| (x <<< (32 - amount))

/-- The next state of the walk. -/
def nextState (s : UInt64) : UInt64 := s * 6364136223846793005 + 11634580027462260723

/-- The word that a state gives. -/
def stateWord (s : UInt64) : UInt32 :=
  rotateRight (((s >>> 18) ^^^ s) >>> 27).toUInt32 (s >>> 59).toUInt32

/-- The eight words of the key. -/
def keyOfSeed (seed : UInt64) : ChaCha.Key :=
  Vector.ofFn fun k => stateWord (Nat.repeat nextState (k + 1) seed)

end Chip8.Random
