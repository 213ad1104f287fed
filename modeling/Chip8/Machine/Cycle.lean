import Chip8.Log
import Chip8.Machine.Execution

/-!
# The cycle

One cycle of a machine: fetch the word at the program counter, read it as an instruction, run it,
and move the counter on. A cycle that has run an instruction tells whether the frame has changed
since a cycle last told, and takes that mark away; one that only waits for a key tells nothing
and leaves the mark.
-/

set_option autoImplicit false

namespace Chip8

/-- What came of a cycle. -/
inductive Cycle where
  /-- An instruction has run; `redraw` says that the frame changed since it was last told of. -/
  | executed (redraw : Bool)
  /-- The machine waits for a key and has not moved on. -/
  | awaitingKey
deriving DecidableEq

/-- The listing of what came of a cycle. -/
def Cycle.listing : Cycle → Listing
  | executed redraw => ⟨"Executed", [("redraw", toString redraw)]⟩
  | awaitingKey => ⟨"AwaitingKey", []⟩

namespace Machine

/-- Runs the instruction that a word means, as if it had been fetched. -/
def executeWord (m : Machine) (w : UInt16) : Except Fault (Flow × Machine) :=
  match Instruction.decode w m.pc with
  | .ok ins => ins.execute m
  | .error fault => .error fault

/-- Moves the program counter on. -/
def advance (m : Machine) (flow : Flow) : Machine := { m with pc := flow.advance m.pc }

/-- Ends a cycle whose instruction has run. -/
def finishCycle (m : Machine) (flow : Flow) : Cycle × Machine :=
  if flow = .wait then (.awaitingKey, m.advance flow)
  else (.executed m.dirty, { m.advance flow with dirty := false })

/-- One cycle. -/
def cycle (m : Machine) : Except Fault (Cycle × Machine) :=
  match m.fetch with
  | .error fault => .error fault
  | .ok w =>
    match m.executeWord w with
    | .error fault => .error fault
    | .ok (flow, m) => .ok (m.finishCycle flow)

/-- What a cycle logs before it runs its instruction; nothing, if there is no instruction. -/
def cycleLog (m : Machine) : List LogEntry :=
  match m.fetch with
  | .error _ => []
  | .ok w =>
    match Instruction.decode w m.pc with
    | .error _ => []
    | .ok ins => [.running w ins m.pc m.i m.v]

/-- What a tick logs: that the sound ends with it. -/
def tickLog (m : Machine) : List LogEntry := if m.sound = 1 then [.soundExpired] else []

end Machine

end Chip8
