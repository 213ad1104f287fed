import Chip8.Player.Host
import Chip8.Text.Numeral

/-!
# Scripts as text

An event is written as one or two words: `down Q` and `up Q` for a key of the keyboard, `quit`,
`other`, and `lag 500` for nanoseconds that pass. A line of a script holds what one poll
delivers, its events between commas; an empty line is a poll that delivers nothing.
-/

set_option autoImplicit false

namespace Chip8

/-- Reads an event. -/
def Event.ofText? (text : String) : Option Event :=
  match text.splitOn " " with
  | ["down", name] => some (.keyDown ⟨name⟩)
  | ["up", name] => some (.keyUp ⟨name⟩)
  | ["quit"] => some .quit
  | ["other"] => some .other
  | ["lag", nanos] => (Numeral.digits? nanos.toList).map .lag
  | _ => none

/-- Reads what one poll delivers. -/
def pollOfLine? (line : String) : Option (List Event) :=
  if line.isEmpty then some [] else (line.splitOn ", ").mapM Event.ofText?

end Chip8
