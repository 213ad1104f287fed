/-!
# Options

What a user asks for on the command line, and the reasons for which a command line is refused.
-/

set_option autoImplicit false

namespace Chip8

/-- The options that take a value. -/
inductive OptionName where
  | scale | seed
deriving DecidableEq

/-- The long spelling of an option, without its dashes. -/
def OptionName.long : OptionName → String
  | scale => "scale"
  | seed => "seed"

/-- What to play, and how. -/
structure Options where
  /-- The path of the ROM. -/
  rom : String
  /-- How many screen pixels wide and high a pixel of the frame is. -/
  scale : UInt32
  /-- The seed of the random bytes, if they are to be the same at every run. -/
  seed : Option UInt64
deriving DecidableEq

/-- The scale where none is asked for. -/
def Options.defaultScale : UInt32 := 10

/-- Why a command line gives no options. -/
inductive Refusal where
  /-- The user asks for help. -/
  | helpAsked
  /-- The user asks for the version. -/
  | versionAsked
  | missingRom
  /-- The ROM is an empty string. -/
  | emptyRom
  /-- An option that there is not, or one ROM too many. -/
  | unknownArgument (arg : String)
  /-- An option stands without its value. -/
  | missingValue (name : OptionName)
  /-- The value of an option is no number of its kind. -/
  | badValue (name : OptionName) (value : String)
  /-- An option is given a second time. -/
  | repeatedOption (name : OptionName)
  /-- A value is given to help or version, which take none. -/
  | unexpectedValue (arg : String)
deriving DecidableEq

/-- What help prints. -/
def helpText : String :=
  "Runs a Chip-8 ROM in an SDL2 window\n\nUsage: chip8 [OPTIONS] <ROM>\n\n" ++
  "Arguments:\n  <ROM>  Path to the ROM to run\n\nOptions:\n" ++
  "  -s, --scale <SCALE>  Size of each Chip-8 pixel on screen [default: 10]\n" ++
  "      --seed <SEED>    Seed for the random number generator\n" ++
  "  -h, --help           Print help\n" ++
  "  -V, --version        Print version\n"

/-- What version prints. -/
def versionText : String := "chip8 0.1.0\n"

/-- What the user is told. -/
def Refusal.message : Refusal → String
  | helpAsked => helpText
  | versionAsked => versionText
  | missingRom => "error: the argument <ROM> is missing\n"
  | emptyRom => "error: the argument <ROM> is empty\n"
  | unknownArgument arg => "error: unexpected argument '" ++ arg ++ "'\n"
  | missingValue name => "error: the option --" ++ name.long ++ " needs a value\n"
  | badValue name value =>
    "error: invalid value '" ++ value ++ "' for the option --" ++ name.long ++ "\n"
  | repeatedOption name => "error: the option --" ++ name.long ++ " is given twice\n"
  | unexpectedValue arg => "error: unexpected value in '" ++ arg ++ "'\n"

end Chip8
