import Chip8.Machine.Cycle

/-!
# Sessions

A session is a machine with an owner, who loads programs, runs cycles, ticks the timers, and
tells of keys. A fault of a cycle ends the run: the session keeps it and answers every later step
with it, until a reset. A refused program is no such fault; it leaves the session as it was.

What the owner can do is data (`Session.Op`), so that statements can speak of all that an owner
may have done.
-/

set_option autoImplicit false

namespace Chip8

/-- What an operation gives: its result, what its subject is afterwards, and what it logs. -/
structure Outcome (σ α : Type) where
  result : α
  after : σ
  log : List LogEntry

/-- The same outcome with another result. -/
def Outcome.map {σ α β : Type} (f : α → β) (o : Outcome σ α) : Outcome σ β :=
  ⟨f o.result, o.after, o.log⟩

/-- A machine, and the fault that stopped it. -/
structure Session where
  machine : Machine
  fault : Option Fault
deriving DecidableEq

namespace Session

/-- A session with a fresh machine. -/
def fresh (random : RandomStream) : Session := ⟨.fresh random, none⟩

/-- Loads a program. -/
def load (s : Session) (program : List UInt8) : Outcome Session (Except Fault Unit) :=
  match s.machine.load program with
  | .ok m => ⟨.ok (), { s with machine := m }, [.programLoaded program.length]⟩
  | .error fault => ⟨.error fault, s, []⟩

/-- Runs one cycle, unless a fault has stopped the machine. -/
def step (s : Session) : Outcome Session (Except Fault Cycle) :=
  match s.fault with
  | some fault => ⟨.error fault, s, []⟩
  | none =>
    match s.machine.cycle with
    | .ok (cycle, m) => ⟨.ok cycle, { s with machine := m }, s.machine.cycleLog⟩
    | .error fault =>
      ⟨.error fault, { s with fault := some fault }, s.machine.cycleLog ++ [.halting fault]⟩

/-- Runs up to `n` cycles and stops after the first that fails. -/
def steps (s : Session) : Nat → Outcome Session (List (Except Fault Cycle))
  | 0 => ⟨[], s, []⟩
  | n + 1 =>
    match s.step with
    | ⟨.error fault, s, log⟩ => ⟨[.error fault], s, log⟩
    | ⟨.ok cycle, s, log⟩ =>
      let rest := steps s n
      ⟨.ok cycle :: rest.result, rest.after, log ++ rest.log⟩

/-- Ticks the timers, stopped or not. -/
def tick (s : Session) : Outcome Session Unit :=
  ⟨(), { s with machine := s.machine.tick }, s.machine.tickLog⟩

/-- Says which keys are down. -/
def setKeys (s : Session) (keys : KeySet) : Outcome Session Unit :=
  ⟨(), { s with machine := s.machine.setKeys keys }, []⟩

/-- Says that a key is down, or up. A number that is no key's is ignored. -/
def setKey (s : Session) (key : UInt8) (down : Bool) : Outcome Session Unit :=
  if h : key.toNat < 16 then
    let keys := s.machine.keys
    s.setKeys (if down then keys.insert ⟨key.toNat, h⟩ else keys.erase ⟨key.toNat, h⟩)
  else ⟨(), s, [.keyIgnored key]⟩

/-- Says that a key has gone down. -/
def press (s : Session) (key : UInt8) : Outcome Session Unit := s.setKey key true

/-- Says that a key has gone up. -/
def release (s : Session) (key : UInt8) : Outcome Session Unit := s.setKey key false

/-- Resets the machine and forgets the fault. -/
def reset (s : Session) : Outcome Session Unit :=
  ⟨(), ⟨s.machine.reset, none⟩, [.machineReset s.machine.reset.pc]⟩

/-! ## Operations as data -/

/-- What the owner of a session can do. -/
inductive Op where
  | load (program : List UInt8)
  | step
  | tick
  | press (key : UInt8)
  | release (key : UInt8)
  | setKeys (keys : KeySet)
  | reset
deriving DecidableEq

/-- What the owner is told. -/
inductive Reply where
  | loaded (result : Except Fault Unit)
  | stepped (result : Except Fault Cycle)
  | done

/-- Does one operation. -/
def perform (s : Session) : Op → Outcome Session Reply
  | .load program => (s.load program).map .loaded
  | .step => s.step.map .stepped
  | .tick => s.tick.map fun _ => .done
  | .press key => (s.press key).map fun _ => .done
  | .release key => (s.release key).map fun _ => .done
  | .setKeys keys => (s.setKeys keys).map fun _ => .done
  | .reset => s.reset.map fun _ => .done

/-- The session after some operations, the first of them first. -/
def runOps (s : Session) (ops : List Op) : Session := ops.foldl (fun s op => (s.perform op).after) s

end Session

end Chip8
