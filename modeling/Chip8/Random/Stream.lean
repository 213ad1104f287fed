import Chip8.Random.Key

/-!
# The random stream

The random bytes of a machine are a fixed sequence given by a key: byte `k` is the lowest byte of
word `k` of the ChaCha stream under the key. The key is that of a seed, or one that nobody has
chosen. A stream is the key and how many bytes have been drawn, so drawing moves one place on and
nothing else can move it.
-/

set_option autoImplicit false

namespace Chip8

/-- Byte `k` of the sequence of a key, counted from zero. -/
def Random.byte (key : ChaCha.Key) (k : Nat) : UInt8 :=
  (ChaCha.block key (UInt64.ofNat (k / 16)))[k % 16].toUInt8

/-- The sequence of the largest seed begins with these bytes. -/
example : (List.range 4).map (Random.byte (Random.keyOfSeed 0xFFFFFFFFFFFFFFFF)) =
    [0xB8, 0x48, 0x9E, 0xB4] := by decide +kernel

/-- A place in the sequence of a key. -/
structure RandomStream where
  key : ChaCha.Key
  /-- How many bytes have been drawn. -/
  drawn : Nat
deriving DecidableEq

namespace RandomStream

/-- The start of the sequence of a key. -/
def ofKey (key : ChaCha.Key) : RandomStream := ⟨key, 0⟩

/-- The start of the sequence of a seed. -/
def ofSeed (seed : UInt64) : RandomStream := ofKey (Random.keyOfSeed seed)

/-- The byte that is drawn next. -/
def head (r : RandomStream) : UInt8 := Random.byte r.key r.drawn

/-- The stream after one byte has been drawn. -/
def tail (r : RandomStream) : RandomStream := { r with drawn := r.drawn + 1 }

end RandomStream

end Chip8
