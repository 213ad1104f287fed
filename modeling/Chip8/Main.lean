import Chip8.Player.Report
import Chip8.Player.Script

/-!
# The command

Plays a ROM from the command line. Standard input holds the script, one poll a line; the window
is standard output, where each picture is printed as text when the play is over, and the log goes
to standard error.
-/

set_option autoImplicit false

namespace Chip8

/-- Reads a ROM from the disk. Errors that no path can cause here are passed on as they are. -/
def readRom (path : String) : IO (Except FileError (List UInt8)) := do
  try
    return .ok (← IO.FS.readBinFile path).toList
  catch e =>
    match e with
    | .noFileOrDirectory .. => return .error .notFound
    | .inappropriateType _ 21 _ => return .error .isDirectory
    | .invalidArgument _ 22 _ => return .error .nulInPath
    | .invalidArgument .. => return .error .nameTooLong
    | .inappropriateType .. => return .error .notDirectory
    | _ => throw e

/-- Reads a script to its end. -/
partial def readScript (input : IO.FS.Stream) : IO (List (List Event)) := do
  let line ← input.getLine
  if line.isEmpty then return []
  match pollOfLine? line.trimAscii.toString with
  | some poll => return poll :: (← readScript input)
  | none => throw (IO.userError ("not a poll: " ++ line))

/-- A key that nobody has chosen. -/
def drawKey : IO ChaCha.Key := do
  let bytes ← IO.getRandomBytes 32
  let word (k : Nat) : UInt32 :=
    (bytes.toList.drop (4 * k)).take 4 |>.foldr (fun b word => word * 256 + b.toUInt32) 0
  return Vector.ofFn fun k => word k

/-- Prints one picture. -/
def printPicture (picture : Picture) : IO Unit := do
  IO.println ("poll " ++ toString picture.poll ++ ", " ++ toString picture.time ++ " ns")
  for line in picture.frame.lines do
    IO.println line

/-- The exit code for a failure, which is another one where nothing is left to return. -/
def Failure.exitCode : Failure → UInt32
  | overflow => 101
  | _ => 1

/-- Prints what has come of playing and gives the exit code. -/
def printReport (report : Report) : IO UInt32 := do
  for entry in report.log do
    IO.eprintln entry.line
  for picture in report.pictures do
    printPicture picture
  match report.exit with
  | .ok () => return 0
  | .error failure =>
    IO.eprintln ("Error: " ++ ": ".intercalate failure.messages)
    return failure.exitCode

/-- Plays the ROM that the arguments name, and gives the exit code. -/
def command (args : List String) : IO UInt32 := do
  match Options.ofArgs args with
  | .error refusal =>
    if refusal = .helpAsked ∨ refusal = .versionAsked then
      IO.print refusal.message
      return 0
    else
      IO.eprint refusal.message
      return 2
  | .ok options =>
    let rom ← readRom options.rom
    let script ← readScript (← IO.getStdin)
    let host := Host.reliable script (← drawKey)
    printReport (host.play options rom)

end Chip8

def main (args : List String) : IO UInt32 := Chip8.command args
