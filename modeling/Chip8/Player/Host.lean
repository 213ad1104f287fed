import Chip8.Player.Keyboard
import Chip8.Random.ChaCha

/-!
# Hosts

The host gives a player its window, tells it of events when it asks, and lets time pass. Here a
host is known beforehand: a script says what each poll delivers, a stage of the setting up may be
named at which the host fails, and so may pictures that it fails to show later. When the script is
over, the window is closed at the next poll.
-/

set_option autoImplicit false

namespace Chip8

/-- What a poll can deliver. -/
inductive Event where
  | keyDown (key : KeyboardKey)
  | keyUp (key : KeyboardKey)
  /-- The window is being closed. -/
  | quit
  /-- An event that means nothing to a player. -/
  | other
  /-- No event: so many nanoseconds pass at this place. -/
  | lag (nanos : Nat)
deriving DecidableEq

/-- The stages of showing a picture, in their order. -/
inductive PictureStage where
  | texture
  /-- Locking the texture, to write to it. -/
  | lock
  /-- Copying the texture to the canvas. -/
  | copy
deriving DecidableEq

/-- What the host reports when a picture cannot be shown. -/
def PictureStage.message : PictureStage → String
  | texture => "SDL error: texture failed"
  | lock => "lock failed"
  | copy => "copy failed"

/-- The stages of setting up, in their order. -/
inductive Stage where
  | start
  | video
  | window
  | canvas
  /-- A stage of showing the first picture. -/
  | picture (stage : PictureStage)
  | events
deriving DecidableEq

namespace Stage

/-- What the host reports when a stage fails. -/
def message : Stage → String
  | start => "init failed"
  | video => "video failed"
  | window => "SDL error: window failed"
  | canvas => "SDL error: canvas failed"
  | picture stage => stage.message
  | events => "events failed"

/-- Does the stage lie before the window is asked for? -/
def beforeWindow : Stage → Bool
  | start | video => true
  | _ => false

/-- Does the stage lie before the first picture is seen? -/
def beforePicture : Stage → Bool
  | events => false
  | _ => true

end Stage

/-- A host, and the program as it was built for it. -/
structure Host where
  /-- What the polls deliver, one after the other. -/
  script : List (List Event)
  /-- The stage of setting up at which the host fails. -/
  failing : Option Stage
  /-- The stage at which a later picture fails, by its number; the first one has number zero. -/
  unshown : Nat → Option PictureStage
  /-- Does the program stop where a product is too large for its type? If not, that goes around. -/
  checked : Bool
  /-- The key of the random bytes for a player who asks for no seed. -/
  entropy : ChaCha.Key

/-- A host on which nothing fails, with a program that is checked. -/
def Host.reliable (script : List (List Event)) (entropy : ChaCha.Key) : Host where
  script := script
  failing := none
  unshown := fun _ => none
  checked := true
  entropy := entropy

end Chip8
