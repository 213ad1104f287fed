import Chip8.Player.Texture
import Chip8.Main
import Chip8.Proofs.Arithmetic
import Chip8.Proofs.Assembler
import Chip8.Proofs.BareWords
import Chip8.Proofs.Calls
import Chip8.Proofs.Commuting
import Chip8.Proofs.Endings
import Chip8.Proofs.Faults
import Chip8.Proofs.KeyWait
import Chip8.Proofs.KeyboardEvents
import Chip8.Proofs.LatestWrite
import Chip8.Proofs.Obstacles
import Chip8.Proofs.RandomBytes
import Chip8.Proofs.Overdrawing
import Chip8.Proofs.Redraw
import Chip8.Proofs.RegisterDump
import Chip8.Proofs.Rendering
import Chip8.Proofs.Residue
import Chip8.Proofs.ReturnList
import Chip8.Proofs.Schedule
import Chip8.Proofs.Spellings
import Chip8.Proofs.SpriteHits
import Chip8.Proofs.Sprites
import Chip8.Proofs.Timers
import Chip8.Proofs.WaitRecord
import Chip8.Proofs.Window
import Chip8.Proofs.WriteSets
