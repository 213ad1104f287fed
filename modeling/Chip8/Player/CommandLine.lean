import Chip8.Player.Options
import Chip8.Text.Numeral

/-!
# The command line

Arguments are read from left to right. An option may have its value attached (`--scale=5`, `-s5`,
`-s=5`) or in the next argument (`--scale 5`, `-s 5`); `--` ends the options, and what is no
option is the ROM.

An argument with an attached value is complete and is checked at once. A separate value, and the
ROM, wait: they are checked only when the next option or the end is reached, for up to then more
could belong to them. So of two mistakes it is not always the first that is reported: an argument
that is not known at all is reported before a value that still waits.
-/

set_option autoImplicit false

namespace Chip8

/-- The form of an argument. -/
inductive ArgForm where
  /-- Two dashes alone. -/
  | separator
  /-- Two dashes and a name, and what follows an equals sign. -/
  | long (name : String) (value : Option String)
  /-- One dash and at least one letter. -/
  | short (letter : Char) (rest : List Char)
  /-- Anything else, a single dash included. -/
  | plain
deriving DecidableEq

/-- What stands behind the first equals sign, if there is one. -/
def afterEquals? (cs : List Char) : Option (List Char) :=
  match cs.dropWhile (· != '=') with
  | [] => none
  | _ :: value => some value

/-- The form of an argument. -/
def ArgForm.ofString (arg : String) : ArgForm :=
  match arg.toList with
  | ['-', '-'] => separator
  | '-' :: '-' :: cs =>
    long (String.ofList (cs.takeWhile (· != '='))) ((afterEquals? cs).map String.ofList)
  | '-' :: c :: cs => short c cs
  | _ => plain

/-- Reads the value of `scale`, a number that 32 bits hold. -/
def readScale? (text : String) : Option UInt32 :=
  match Numeral.integer? text.toList with
  | some n => if 0 ≤ n ∧ n < UInt32.size then some (UInt32.ofNat n.toNat) else none
  | none => none

/-- Reads the value of `seed`, a number that 64 bits hold, without a minus sign. -/
def readSeed? (text : String) : Option UInt64 :=
  match Numeral.natural? text.toList with
  | some n => if n < UInt64.size then some (UInt64.ofNat n) else none
  | none => none

/-- What waits to be checked. -/
inductive Pending where
  /-- An option, with its value once that has come. -/
  | option (name : OptionName) (value : Option String)
  | rom (path : String)
deriving DecidableEq

/-- What has been read of a command line. -/
structure Reading where
  rom : Option String
  scale : Option UInt32
  seed : Option UInt64
  pending : Option Pending
deriving DecidableEq

namespace Reading

/-- Nothing has been read. -/
def empty : Reading := ⟨none, none, none, none⟩

/-- Takes the value of an option. -/
def assign (r : Reading) (name : OptionName) (text : String) : Except Refusal Reading :=
  match name with
  | .scale =>
    if r.scale.isSome then .error (.repeatedOption .scale)
    else
      match readScale? text with
      | some n => .ok { r with scale := some n }
      | none => .error (.badValue .scale text)
  | .seed =>
    if r.seed.isSome then .error (.repeatedOption .seed)
    else
      match readSeed? text with
      | some n => .ok { r with seed := some n }
      | none => .error (.badValue .seed text)

/-- Checks what waits. -/
def settle (r : Reading) : Except Refusal Reading :=
  match r.pending with
  | none => .ok r
  | some (.rom path) =>
    if path.isEmpty then .error .emptyRom else .ok { r with rom := some path, pending := none }
  | some (.option name none) => .error (.missingValue name)
  | some (.option name (some text)) => { r with pending := none }.assign name text

/-- An option with its value attached. -/
def takeAttached (r : Reading) (name : OptionName) (text : String) : Except Refusal Reading :=
  match r.settle with
  | .ok r => r.assign name text
  | .error e => .error e

/-- An option or the ROM that will have to wait. -/
def await (r : Reading) (pending : Pending) : Except Refusal Reading :=
  match r.settle with
  | .ok r => .ok { r with pending := some pending }
  | .error e => .error e

/-- An option, with or without its value attached. -/
def takeOption (r : Reading) (name : OptionName) : Option String → Except Refusal Reading
  | some text => r.takeAttached name text
  | none => r.await (.option name none)

/-- A wish that ends the reading, unless what waits is at fault. -/
def stop (r : Reading) (wish : Refusal) : Except Refusal Reading :=
  match r.settle with
  | .ok _ => .error wish
  | .error e => .error e

/-- Is there a ROM already, checked or waiting? -/
def hasRom (r : Reading) : Bool :=
  match r.pending with
  | some (.rom _) => true
  | _ => r.rom.isSome

/-- An argument that is no option. -/
def takeRom (r : Reading) (arg : String) : Except Refusal Reading :=
  if r.hasRom then .error (.unknownArgument arg) else r.await (.rom arg)

/-- An argument that is no option, where an option may still wait for its value. -/
def takePlain (r : Reading) (arg : String) : Except Refusal Reading :=
  match r.pending with
  | some (.option name none) => .ok { r with pending := some (.option name (some arg)) }
  | _ => r.takeRom arg

/-- An argument with two dashes. -/
def takeLong (r : Reading) (arg name : String) (value : Option String) :
    Except Refusal Reading :=
  match name, value with
  | "scale", value => r.takeOption .scale value
  | "seed", value => r.takeOption .seed value
  | "help", none => r.stop .helpAsked
  | "version", none => r.stop .versionAsked
  | "help", some _ => .error (.unexpectedValue arg)
  | "version", some _ => .error (.unexpectedValue arg)
  | _, _ => .error (.unknownArgument arg)

/-- The value attached to a letter: what follows it, less one equals sign. -/
def attachedValue? : List Char → Option String
  | [] => none
  | '=' :: cs => some (String.ofList cs)
  | cs => some (String.ofList cs)

/-- An argument with one dash. Its first letter decides, for the letters that stand for no option
with a value end the reading. -/
def takeShort (r : Reading) (arg : String) (letter : Char) (rest : List Char) :
    Except Refusal Reading :=
  match letter with
  | 's' => r.takeOption .scale (attachedValue? rest)
  | 'h' => r.stop .helpAsked
  | 'V' => r.stop .versionAsked
  | _ => .error (.unknownArgument arg)

/-- The arguments after the separator, none of which is an option. -/
def takePlains (r : Reading) : List String → Except Refusal Reading
  | [] => .ok r
  | arg :: rest =>
    match r.takeRom arg with
    | .ok r => r.takePlains rest
    | .error e => .error e

/-- The arguments from left to right. -/
def takeAll (r : Reading) : List String → Except Refusal Reading
  | [] => .ok r
  | arg :: rest =>
    match ArgForm.ofString arg with
    | .separator => r.takePlains rest
    | .long name value =>
      match r.takeLong arg name value with
      | .ok r => r.takeAll rest
      | .error e => .error e
    | .short letter cs =>
      match r.takeShort arg letter cs with
      | .ok r => r.takeAll rest
      | .error e => .error e
    | .plain =>
      match r.takePlain arg with
      | .ok r => r.takeAll rest
      | .error e => .error e

/-- The options that were read, at the end of the arguments. -/
def finish (r : Reading) : Except Refusal Options :=
  match r.settle with
  | .error e => .error e
  | .ok r =>
    match r.rom with
    | none => .error .missingRom
    | some rom => .ok ⟨rom, r.scale.getD Options.defaultScale, r.seed⟩

end Reading

/-- The options that a command line asks for. -/
def Options.ofArgs (args : List String) : Except Refusal Options :=
  match Reading.empty.takeAll args with
  | .ok r => r.finish
  | .error e => .error e

end Chip8
