import Chip8.CallStack
import Chip8.Frame
import Chip8.Instruction.Nibbles
import Chip8.Keypad
import Chip8.Memory
import Chip8.Random.Stream

/-!
# The machine

The state of a machine and the operations that its surroundings have on it: switching on and
resetting, loading a program, ticking the timers, and telling it which keys are down. What
instructions do to it is in `Chip8.Machine.Execution`.

Two fields are about the surroundings. `dirty` says that the frame has changed since anybody was
told. `heldOnWait` is there while the machine waits for a key: the keys that have been down ever
since the wait began, which must be let go before they can end it.
-/

set_option autoImplicit false

namespace Chip8

/-- The state of a machine. -/
structure Machine where
  /-- The registers `V0` to `VF`; the last doubles as a flag. -/
  v : Vector UInt8 16
  /-- The index, an address for the instructions that work on memory. -/
  i : UInt16
  /-- Where the next instruction lies. -/
  pc : UInt16
  stack : CallStack
  delay : UInt8
  sound : UInt8
  memory : Memory
  frame : Frame
  dirty : Bool
  keys : KeySet
  heldOnWait : Option KeySet
  random : RandomStream
deriving DecidableEq

namespace Machine

/-- A machine just switched on, with these keys down and this random stream. -/
def powerOn (keys : KeySet) (random : RandomStream) : Machine where
  v := Vector.replicate 16 0
  i := 0
  pc := UInt16.ofNat Memory.programStart
  stack := .empty
  delay := 0
  sound := 0
  memory := .powerOn
  frame := .dark
  dirty := false
  keys := keys
  heldOnWait := none
  random := random

/-- A machine just switched on, with no key down and this random stream. -/
def fresh (random : RandomStream) : Machine := powerOn ∅ random

/-- Switches the machine off and on. The keys are not the machine's own and stay as they are; the
random stream goes on from where it was. -/
def reset (m : Machine) : Machine := powerOn m.keys m.random

/-- Loads a program. Everything but memory is kept. -/
def load (m : Machine) (program : List UInt8) : Except Fault Machine :=
  (m.memory.load program).map fun memory => { m with memory }

/-- The word at the program counter. -/
def fetch (m : Machine) : Except Fault UInt16 := m.memory.readWord m.pc.toNat

/-- Writes bytes to memory from `start` on. -/
def store (m : Machine) (start : Nat) (data : List UInt8) : Except Fault Machine :=
  (m.memory.write start data).map fun memory => { m with memory }

/-- Puts an address on the call stack. -/
def push (m : Machine) (a : UInt16) : Except Fault Machine :=
  match m.stack.push? a with
  | some stack => .ok { m with stack }
  | none => .error (.stackOverflow m.pc)

/-- Takes an address from the call stack. -/
def pop (m : Machine) : Except Fault (UInt16 × Machine) :=
  match m.stack.pop? with
  | some (a, stack) => .ok (a, { m with stack })
  | none => .error (.stackUnderflow m.pc)

/-- Draws a random byte. -/
def drawByte (m : Machine) : UInt8 × Machine :=
  (m.random.head, { m with random := m.random.tail })

/-- Says which keys are down. A key let go of while the machine waits is no longer held from
before the wait. -/
def setKeys (m : Machine) (keys : KeySet) : Machine :=
  { m with keys, heldOnWait := m.heldOnWait.map (· ∩ keys) }

/-- Counts both timers down by one, stopping at zero. -/
def tick (m : Machine) : Machine :=
  { m with delay := if m.delay = 0 then 0 else m.delay - 1
           sound := if m.sound = 0 then 0 else m.sound - 1 }

/-- Is the buzzer sounding? It does as long as the sound timer runs. -/
def beeping (m : Machine) : Bool := 0 < m.sound

end Machine

end Chip8
