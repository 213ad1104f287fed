import Chip8.Player.Basic
import Chip8.Player.CommandLine
import Chip8.Player.Directory

/-!
# Playing a ROM

From a command line to the end of the play: the ROM is read and loaded, the window is set up, and
the player takes its turns. The report says how it ended and what was seen on the way.

Nothing of the host is touched before the ROM is loaded, and no time passes before the first
turn.
-/

set_option autoImplicit false

namespace Chip8

/-- A window as it was asked for. -/
structure Window where
  title : String
  width : UInt32
  height : UInt32
deriving DecidableEq

namespace Window

/-- The window for a scale. Its sides are products of 32 bits, which go around. -/
def ofScale (scale : UInt32) : Window :=
  ⟨"Chip-8", .ofNat Frame.width * scale, .ofNat Frame.height * scale⟩

/-- Do the sides for a scale fit into 32 bits? -/
def Fits (scale : UInt32) : Prop :=
  Frame.width * scale.toNat < UInt32.size ∧ Frame.height * scale.toNat < UInt32.size
deriving Decidable

/-- No window may be as wide or as high as this. -/
def sizeLimit : UInt32 := 0x80000000

end Window

/-- Why playing ended otherwise than by the closing of the window. -/
inductive Failure where
  | unreadable (path : String) (error : FileError)
  | unloadable (fault : Fault)
  /-- A product was too large for its type. This is no failure to be told of: the program is torn
  down where it stands. -/
  | overflow
  | windowTooWide (width : UInt32)
  | windowTooHigh (height : UInt32)
  | stage (stage : Stage)
  | halted (fault : Fault)
  | unshown (stage : PictureStage)
deriving DecidableEq

/-- What the user is told, from the whole to its cause. -/
def Failure.messages : Failure → List String
  | unreadable path error => ["unable to read ROM " ++ path, error.message]
  | unloadable fault => ["unable to load ROM", fault.message]
  | overflow => ["attempt to multiply with overflow"]
  | windowTooWide width => ["Window width (" ++ toString width ++ ") is too high."]
  | windowTooHigh height => ["Window height (" ++ toString height ++ ") is too high."]
  | stage failed => [failed.message]
  | halted fault => ["emulation halted", fault.message]
  | unshown failed => [failed.message]

/-- The failure that an ending is, if it is one. -/
def Ending.result : Ending → Except Failure Unit
  | windowClosed => .ok ()
  | halted fault => .error (.halted fault)
  | unshown stage => .error (.unshown stage)

/-- What is known when playing is over. -/
structure Report where
  exit : Except Failure Unit
  /-- The log, the first entry first. -/
  log : List LogEntry
  /-- The window, if one was asked for. -/
  window : Option Window
  /-- The pictures shown, the first one first. -/
  pictures : List Picture
  /-- How many polls began. -/
  polls : Nat
  /-- The time on the clock. -/
  time : Nat

namespace Report

/-- The report of a failure before the first turn. -/
def early (failure : Failure) (log : List LogEntry) (window : Option Window)
    (pictures : List Picture) : Report :=
  ⟨.error failure, log, window, pictures, 0, 0⟩

/-- The report of a player who has come to an end. -/
def ofPlayer (window : Window) (p : Player) (ending : Ending) : Report :=
  ⟨ending.result, p.log.reverse, some window, p.pictures.reverse, p.polls, p.clock⟩

/-- Each picture of a list with the rows in which it differs from the one before; the first from
`shown`. -/
def updatesFrom (shown : Frame) : List Picture → List (Picture × List (Fin 32 × Row))
  | [] => []
  | picture :: rest =>
    (picture, shown.changedRows picture.frame) :: updatesFrom picture.frame rest

/-- The pictures of a report, each as what it changes. -/
def updates (r : Report) : List (Picture × List (Fin 32 × Row)) := updatesFrom .dark r.pictures

end Report

namespace Host

/-- The random stream of a player: that of the seed, if one is asked for. -/
def random (host : Host) (options : Options) : RandomStream :=
  match options.seed with
  | some seed => .ofSeed seed
  | none => .ofKey host.entropy

/-- Plays a session whose ROM is loaded: sets up the window, stage by stage, and takes the turns. -/
def playLoaded (host : Host) (scale : UInt32) (session : Session) (log : List LogEntry) :
    Report :=
  let window := Window.ofScale scale
  let player := Player.begin session host.unshown log
  match host.failing.filter (·.beforeWindow) with
  | some stage => .early (.stage stage) log none []
  | none =>
    if host.checked ∧ ¬ Window.Fits scale then .early .overflow log none []
    else if Window.sizeLimit ≤ window.width then .early (.windowTooWide window.width) log none []
    else if Window.sizeLimit ≤ window.height then
      .early (.windowTooHigh window.height) log none []
    else
      match host.failing with
      | some stage =>
        .early (.stage stage) log (some window)
          (if stage.beforePicture then [] else player.pictures)
      | none =>
        let (player, ending) := player.play host.script
        .ofPlayer window player ending

/-- Plays a ROM as the options ask, given what came of reading its file. -/
def play (host : Host) (options : Options) (rom : Except FileError (List UInt8)) : Report :=
  match rom with
  | .error error => .early (.unreadable options.rom error) [] none []
  | .ok program =>
    let loaded := (Session.fresh (host.random options)).load program
    match loaded.result with
    | .error fault => .early (.unloadable fault) [] none []
    | .ok () =>
      host.playLoaded options.scale loaded.after [.romLoaded options.rom program.length]

/-- Does what a command line asks for, with the files of a directory. -/
def run (host : Host) (directory : Directory) (args : List String) : Except Refusal Report :=
  match Options.ofArgs args with
  | .error refusal => .error refusal
  | .ok options => .ok (host.play options (directory.read options.rom))

end Host

end Chip8
