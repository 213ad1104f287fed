import Chip8.Keypad

/-!
# The keyboard

Which key of a keyboard stands for which key of the keypad. The keypad lies on the four left
columns of letters and digits:

    |1|2|3|C|      |1|2|3|4|
    |4|5|6|D|  on  |Q|W|E|R|
    |7|8|9|E|      |A|S|D|F|
    |A|0|B|F|      |Z|X|C|V|

The layout gives each key of the keypad its keyboard key; the way back is by search, so a
keyboard key stands for a key of the keypad only if the layout says so.
-/

set_option autoImplicit false

namespace Chip8

/-- A key of the keyboard, by its name. The digits of the top row are `Num0` to `Num9`. -/
structure KeyboardKey where
  name : String
deriving DecidableEq

namespace KeyboardKey

/-- The key that closes the window. -/
def escape : KeyboardKey := ⟨"Escape"⟩

/-- The names of the keyboard keys for the keys of the keypad, from `0` to `F`. -/
def layout : Vector String 16 :=
  #v["X", "Num1", "Num2", "Num3", "Q", "W", "E", "A", "S", "D", "Z", "C", "Num4", "R", "F", "V"]

/-- The keyboard key for a key of the keypad. -/
def ofKey (k : Key) : KeyboardKey := ⟨layout[k]⟩

/-- The key of the keypad that a keyboard key stands for, if any. -/
def key? (key : KeyboardKey) : Option Key := (List.finRange 16).find? fun k => ofKey k = key

/-- No keyboard key stands for two keys of the keypad. -/
theorem ofKey_inj {j k : Key} (h : ofKey j = ofKey k) : j = k := by
  revert j k; decide

/-- Looking for a keyboard key finds the key of the keypad that the layout has put there. -/
theorem key?_eq_some {key : KeyboardKey} {k : Key} : key.key? = some k ↔ key = ofKey k := by
  constructor
  · intro h
    have found := List.find?_some (p := fun j => decide (ofKey j = key)) h
    exact (of_decide_eq_true found).symm
  · rintro rfl
    revert k; decide

end KeyboardKey

end Chip8
