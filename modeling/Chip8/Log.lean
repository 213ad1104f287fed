import Chip8.Instruction.Mnemonic
import Chip8.Memory

/-!
# The log

What the machine and the player have to say about their work, as values; the text of an entry
is made from it at the end. Entries have a level, and a reader picks the entries from some level
upwards.
-/

set_option autoImplicit false

namespace Chip8

/-- How important an entry is. -/
inductive Level where
  | trace | debug | info | warn
deriving DecidableEq

/-- The name that stands in front of an entry. -/
def Level.name : Level → String
  | trace => "TRACE"
  | debug => "DEBUG"
  | info => "INFO"
  | warn => "WARN"

/-- One entry of the log. -/
inductive LogEntry where
  /-- An instruction is about to be run, with the machine in this state. -/
  | running (word : UInt16) (ins : Instruction) (pc i : UInt16) (v : Vector UInt8 16)
  | programLoaded (size : Nat)
  | machineReset (pc : UInt16)
  | soundExpired
  | romLoaded (path : String) (size : Nat)
  | windowClosed
  | halting (fault : Fault)
  /-- A key was pressed or released that the keypad does not have. -/
  | keyIgnored (key : UInt8)
deriving DecidableEq

namespace LogEntry

/-- The level of an entry. -/
def level : LogEntry → Level
  | running .. => .trace
  | programLoaded _ | machineReset _ | soundExpired => .debug
  | romLoaded .. | windowClosed => .info
  | halting _ | keyIgnored _ => .warn

/-- Is the entry shown to a user who has not asked for details? -/
def isNotice (e : LogEntry) : Bool :=
  match e.level with
  | .trace | .debug => false
  | .info | .warn => true

/-- The text of an entry. -/
def message : LogEntry → String
  | running word ins pc i v =>
    Hex.bare 4 word.toNat ++ " " ++ ins.mnemonic.text ++ " pc" ++ Hex.bare 4 pc.toNat ++
      " i" ++ Hex.bare 4 i.toNat ++ " v[" ++
      ", ".intercalate (v.toList.map fun b => Hex.bare 2 b.toNat) ++ "]"
  | programLoaded size =>
    "loaded " ++ toString size ++ " byte program at " ++ Hex.marked 4 Memory.programStart
  | machineReset pc => "state reset, pc=" ++ Hex.marked 4 pc.toNat
  | soundExpired => "sound timer expired"
  | romLoaded path size => "loaded " ++ path ++ " (" ++ toString size ++ " bytes)"
  | windowClosed => "window closed"
  | halting fault => "halting: " ++ fault.message
  | keyIgnored key =>
    "ignoring key " ++ Hex.marked 2 key.toNat ++ ", the keypad only has 0..F"

/-- An entry as a line of the log. -/
def line (e : LogEntry) : String := e.level.name ++ " " ++ e.message

end LogEntry

end Chip8
