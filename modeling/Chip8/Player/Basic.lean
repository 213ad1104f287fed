import Chip8.Player.Host
import Chip8.Session

/-!
# The player

A player runs a session in turns. In a turn it polls the host for events, runs one cycle, shows
the frame if the cycle has told of a change, ticks the timers as often as their period has gone
by, and sleeps for what is left of the time of a cycle. If the frame cannot be shown, playing ends.

Two marks tell the time. `lastCycle` is the end of the turn before, wherever that fell;
`lastTick` moves on by whole periods only, so no part of a period is ever lost. The clock moves
only while the player sleeps and where the host lags.
-/

set_option autoImplicit false

namespace Chip8

/-- The time of a cycle in nanoseconds, for about 500 cycles a second. -/
def cycleTime : Nat := 2000000

/-- How often the timers tick in a second. -/
def tickRate : Nat := 60

/-- The period of the timers in nanoseconds, rounded down. -/
def tickPeriod : Nat := 1000000000 / tickRate

/-- A frame as it was shown. -/
structure Picture where
  /-- How many polls had begun. -/
  poll : Nat
  /-- The time on the clock. -/
  time : Nat
  frame : Frame
deriving DecidableEq

/-- A player at work. -/
structure Player where
  session : Session
  /-- Nanoseconds since the start. -/
  clock : Nat
  lastCycle : Nat
  lastTick : Nat
  /-- How many times the timers have ticked. -/
  ticks : Nat
  /-- How many polls have begun. -/
  polls : Nat
  /-- The stage at which the host fails to show a picture, by its number. -/
  unshown : Nat → Option PictureStage
  /-- The pictures shown, the last one first. -/
  pictures : List Picture
  /-- The notices of the log, the last one first. -/
  log : List LogEntry

/-- How playing came to its end. -/
inductive Ending where
  | windowClosed
  | halted (fault : Fault)
  /-- A picture could not be shown. -/
  | unshown (stage : PictureStage)
deriving DecidableEq

namespace Player

/-- A player about to begin, who has shown a dark frame and noted these things. -/
def begin (session : Session) (unshown : Nat → Option PictureStage) (log : List LogEntry) :
    Player where
  session := session
  clock := 0
  lastCycle := 0
  lastTick := 0
  ticks := 0
  polls := 0
  unshown := unshown
  pictures := [⟨0, 0, .dark⟩]
  log := log

/-- Adds what is fit for a user to the log. -/
def note (p : Player) (entries : List LogEntry) : Player :=
  { p with log := (entries.filter (·.isNotice)).reverse ++ p.log }

/-- Goes on with what an operation has left of the session. -/
def follow {α : Type} (p : Player) (o : Outcome Session α) : Player :=
  { p with session := o.after }.note o.log

/-- Passes a keyboard key on to the keypad, if it stands for a key there. -/
def passKey (p : Player) (key : KeyboardKey) (down : Bool) : Player :=
  match key.key? with
  | some k => p.follow (p.session.setKey (UInt8.ofNat k) down)
  | none => p

/-- Takes the events of a poll until one of them closes the window, and says whether one did. -/
def deliver (p : Player) : List Event → Player × Bool
  | [] => (p, false)
  | .quit :: _ => (p, true)
  | .keyDown key :: rest =>
    if key = .escape then (p, true) else deliver (p.passKey key true) rest
  | .keyUp key :: rest => deliver (p.passKey key false) rest
  | .other :: rest => deliver p rest
  | .lag nanos :: rest => deliver { p with clock := p.clock + nanos } rest

/-- The player with the frame on show. -/
def showing (p : Player) : Player :=
  { p with pictures := ⟨p.polls, p.clock, p.session.machine.frame⟩ :: p.pictures }

/-- Shows the frame, or says at what stage that fails. -/
def present (p : Player) : Except PictureStage Player :=
  match p.unshown p.pictures.length with
  | some stage => .error stage
  | none => .ok p.showing

/-- Ticks the timers once and moves their mark on. -/
def tickOnce (p : Player) : Player :=
  { p.follow p.session.tick with lastTick := p.lastTick + tickPeriod, ticks := p.ticks + 1 }

/-- Ticks the timers for every period that has gone by. -/
def catchUp (p : Player) : Player :=
  if p.lastTick + tickPeriod ≤ p.clock then catchUp p.tickOnce else p
termination_by p.clock - p.lastTick
decreasing_by
  have : p.tickOnce.clock = p.clock := rfl
  have : p.tickOnce.lastTick = p.lastTick + tickPeriod := rfl
  have : 0 < tickPeriod := by decide
  omega

/-- Sleeps until the time of a cycle is over, if it is not yet, and ends the turn. -/
def rest (p : Player) : Player :=
  let clock := max p.clock (p.lastCycle + cycleTime)
  { p with clock, lastCycle := clock }

/-- What a turn does after a cycle that has run. -/
def finishTurn (p : Player) (cycle : Cycle) : Except PictureStage Player :=
  (if cycle = .executed true then p.present else .ok p).map fun p => p.catchUp.rest

/-- One turn, with the events of its poll; the ending, if it is the last one. -/
def turn (p : Player) (events : List Event) : Player × Option Ending :=
  match { p with polls := p.polls + 1 }.deliver events with
  | (p, true) => (p.note [.windowClosed], some .windowClosed)
  | (p, false) =>
    let step := p.session.step
    let p := p.follow step
    match step.result with
    | .error fault => (p, some (.halted fault))
    | .ok cycle =>
      match p.finishTurn cycle with
      | .error stage => (p, some (.unshown stage))
      | .ok p => (p, none)

/-- Turns until the end, with a script of what the polls deliver. -/
def play (p : Player) : List (List Event) → Player × Ending
  | [] => ({ p with polls := p.polls + 1 }.note [.windowClosed], .windowClosed)
  | events :: script =>
    match p.turn events with
    | (p, some ending) => (p, ending)
    | (p, none) => p.play script

end Player

end Chip8
