import Chip8.Instruction.Encoding
import Chip8.Machine.Basic

/-!
# Execution

What each instruction does to a machine. An instruction leaves the program counter to whoever
runs it and says instead how it is to move on (`Flow`); a jump, which has set the counter already,
says that it stays.

An instruction that fails gives no machine, only the fault: there is no state in which half of
it has been done.
-/

set_option autoImplicit false

namespace Chip8

/-- How the program counter goes on after an instruction. -/
inductive Flow where
  /-- To the next instruction. -/
  | next
  /-- Past the next instruction. -/
  | skip
  /-- It has been set already. -/
  | jump
  /-- It stays: the instruction is not done before a key goes down. -/
  | wait
deriving DecidableEq

namespace Flow

/-- Skips where the condition holds. -/
def skipWhen (holds : Bool) : Flow := if holds then skip else next

/-- The program counter to go on from, around at the end of its sixteen bits. -/
def advance (flow : Flow) (pc : UInt16) : UInt16 :=
  match flow with
  | next => pc + 2
  | skip => pc + 4
  | jump | wait => pc

/-- The name of the flow. -/
def name : Flow → String
  | next => "Next"
  | skip => "Skip"
  | jump => "Jump"
  | wait => "Wait"

end Flow

/-- The result of an operation on the bytes `a` of its first and `b` of its second register, and
the flag if it has one. -/
def ArithOp.eval (op : ArithOp) (a b : UInt8) : UInt8 × Option Bool :=
  match op with
  | copy => (b, none)
  | or => (a ||| b, none)
  | and => (a &&& b, none)
  | xor => (a ^^^ b, none)
  | add => (a + b, some (decide (256 ≤ a.toNat + b.toNat)))
  | sub => (a - b, some (decide (b ≤ a)))
  | shiftRight => (a >>> 1, some (a &&& 1 != 0))
  | subFrom => (b - a, some (decide (a ≤ b)))
  | shiftLeft => (a <<< 1, some (a &&& 0x80 != 0))

namespace Machine

/-- Puts a byte into a register. -/
def setReg (m : Machine) (x : Register) (b : UInt8) : Machine := { m with v := m.v.set x b }

/-- Puts a flag into `VF`. -/
def setFlag (m : Machine) (flag : Bool) : Machine := m.setReg 0xF (if flag then 1 else 0)

/-- Is the key down whose number register `x` holds? There is no key past the sixteenth. -/
def keyDown (m : Machine) (x : Register) : Bool :=
  if h : m.v[x].toNat < 16 then m.keys.contains ⟨m.v[x].toNat, h⟩ else false

/-- Does the condition of a skip hold? -/
def holds (m : Machine) : Condition → Bool
  | .byteIs x b => m.v[x] == b
  | .byteIsNot x b => m.v[x] != b
  | .same x y => m.v[x] == m.v[y]
  | .differ x y => m.v[x] != m.v[y]
  | .keyDown x => m.keyDown x
  | .keyUp x => !m.keyDown x

/-- An operation on two registers. The flag is written before the result, so where the first
register is `VF` itself it is the result that stays. -/
def arith (m : Machine) (op : ArithOp) (x y : Register) : Machine :=
  let (result, flag) := op.eval m.v[x] m.v[y]
  match flag with
  | some flag => (m.setFlag flag).setReg x result
  | none => m.setReg x result

/-- Draws a sprite at the position in two registers and tells of collisions in `VF`. -/
def drawSprite (m : Machine) (x y : Register) (sprite : List UInt8) : Machine :=
  let left := m.v[x].toNat
  let top := m.v[y].toNat
  { m.setFlag (m.frame.collides left top sprite) with
    frame := m.frame.draw left top sprite
    dirty := m.dirty || sprite.any (· != 0) }

/-- The keys that have been down since the wait under way began; if none is under way, it begins
now. -/
def heldSinceWait (m : Machine) : KeySet := m.heldOnWait.getD m.keys ∩ m.keys

/-- Waits for a key that was not down when the wait began. The lowest such key ends it. -/
def awaitKey (m : Machine) (x : Register) : Flow × Machine :=
  match (m.keys \ m.heldSinceWait).lowest? with
  | some k => (.next, { m.setReg x (UInt8.ofNat k) with heldOnWait := none })
  | none => (.wait, { m with heldOnWait := some m.heldSinceWait })

/-- The decimal digits of a byte: hundreds, tens, units. -/
def decimalDigits (b : UInt8) : List UInt8 := [b / 100, b / 10 % 10, b % 10]

/-- Fills the registers from `V0` on with bytes. -/
def setRegs (m : Machine) (bytes : List UInt8) : Machine :=
  { m with v := Vector.ofFn fun k => bytes[k.val]?.getD (m.v.get k) }

end Machine

/-- Runs one instruction. -/
def Instruction.execute (ins : Instruction) (m : Machine) : Except Fault (Flow × Machine) :=
  match ins with
  | sys _ => .ok (.next, m)
  | clear => .ok (.next, { m with frame := .dark, dirty := true })
  | ret => m.pop.map fun (origin, m) => (.next, { m with pc := origin })
  | jump a => .ok (.jump, { m with pc := UInt16.ofNat a })
  | call a => (m.push m.pc).map fun m => (.jump, { m with pc := UInt16.ofNat a })
  | skipIf c => .ok (.skipWhen (m.holds c), m)
  | setByte x b => .ok (.next, m.setReg x b)
  | addByte x b => .ok (.next, m.setReg x (m.v[x] + b))
  | arith op x y => .ok (.next, m.arith op x y)
  | setIndex a => .ok (.next, { m with i := UInt16.ofNat a })
  | jumpOffset a => .ok (.jump, { m with pc := UInt16.ofNat (m.v[(0 : Register)].toNat + a) })
  | random x mask =>
    let (b, m) := m.drawByte
    .ok (.next, m.setReg x (b &&& mask))
  | draw x y height =>
    (m.memory.read m.i.toNat height).map fun sprite => (.next, m.drawSprite x y sprite)
  | readDelay x => .ok (.next, m.setReg x m.delay)
  | awaitKey x => .ok (m.awaitKey x)
  | setDelay x => .ok (.next, { m with delay := m.v[x] })
  | setSound x => .ok (.next, { m with sound := m.v[x] })
  | addIndex x => .ok (.next, { m with i := m.i + m.v[x].toUInt16 })
  | pointGlyph x => .ok (.next, { m with i := Font.addressOf m.v[x] })
  | storeDecimal x =>
    (m.store m.i.toNat (Machine.decimalDigits m.v[x])).map fun m => (.next, m)
  | storeRegisters x =>
    (m.store m.i.toNat (m.v.toList.take (x + 1))).map fun m => (.next, m)
  | loadRegisters x =>
    (m.memory.read m.i.toNat (x + 1)).map fun bytes => (.next, m.setRegs bytes)

end Chip8
