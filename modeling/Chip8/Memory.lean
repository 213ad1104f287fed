import Chip8.Fault
import Chip8.Font

/-!
# Memory

4096 bytes. Everything below `0x200` is kept for the interpreter, which has its font there; a
program is loaded at `0x200` and may fill the rest.

An access names a start and a length and is granted or refused as a whole: a refused one reads
nothing and writes nothing. What memory holds is said by `Memory.byte`, and what a write does to
it by `Memory.byte_place`: the bytes written stand where they were put, and every other byte is
as it was.
-/

set_option autoImplicit false

namespace Chip8

/-- The bytes of the machine. -/
structure Memory where
  bytes : Vector UInt8 4096
deriving DecidableEq

namespace Memory

/-- How many bytes there are. -/
def size : Nat := 4096

/-- Where a program begins. -/
def programStart : Nat := 0x200

/-- The longest program that fits between its start and the end of memory. -/
def maxProgramSize : Nat := size - programStart

/-- The byte at an address; past the end, where no granted access reaches, it reads as zero. -/
def byte (m : Memory) (a : Nat) : UInt8 := m.bytes[a]?.getD 0

/-- The two bytes from `a` on, the first of them the upper half. -/
def word (m : Memory) (a : Nat) : UInt16 :=
  UInt16.ofNat ((m.byte a).toNat * 256 + (m.byte (a + 1)).toNat)

/-- The `len` bytes from `start` on. -/
def slice (m : Memory) (start len : Nat) : List UInt8 :=
  (List.range len).map fun k => m.byte (start + k)

/-- Puts bytes one after the other from `start` on; what would lie past the end is dropped. -/
def place (m : Memory) (start : Nat) : List UInt8 → Memory
  | [] => m
  | b :: rest => place ⟨m.bytes.setIfInBounds start b⟩ (start + 1) rest

/-- The fault of an access from `start` on that runs past the end. -/
def refusal (start : Nat) : Fault := .outOfBounds (max start size)

/-- Reads `len` bytes from `start` on. Reading nothing at the very end is granted. -/
def read (m : Memory) (start len : Nat) : Except Fault (List UInt8) :=
  if start + len ≤ size then .ok (m.slice start len) else .error (refusal start)

/-- Reads the word at `start`. -/
def readWord (m : Memory) (start : Nat) : Except Fault UInt16 :=
  if start + 2 ≤ size then .ok (m.word start) else .error (refusal start)

/-- Writes bytes from `start` on. -/
def write (m : Memory) (start : Nat) (data : List UInt8) : Except Fault Memory :=
  if start + data.length ≤ size then .ok (m.place start data) else .error (refusal start)

/-- All zero. -/
def zero : Memory := ⟨Vector.replicate 4096 0⟩

/-- What the machine is switched on with: the font, and zeros. -/
def powerOn : Memory := zero.place Font.start Font.bytes

/-- Loads a program at its place. -/
def load (m : Memory) (program : List UInt8) : Except Fault Memory :=
  if program.length ≤ maxProgramSize then .ok (m.place programStart program)
  else .error (.programTooLarge program.length maxProgramSize)

/-- Puts the byte at `a` in front of the first run, or into a run of its own. -/
def joinRun (a : Nat) (b : UInt8) : List (Nat × List UInt8) → List (Nat × List UInt8)
  | (start, run) :: rest =>
    if start = a + 1 then (a, b :: run) :: rest else (a, [b]) :: (start, run) :: rest
  | [] => [(a, [b])]

/-- Where a later memory differs from an earlier one: the longest runs of neighbouring bytes all
of which differ, each with its start and its new bytes, in ascending order. -/
def changedRuns (earlier later : Memory) : List (Nat × List UInt8) :=
  (List.range size).foldr
    (fun a runs => if earlier.byte a = later.byte a then runs else joinRun a (later.byte a) runs)
    []

/-! ## What a write does -/

@[simp] theorem byte_zero (a : Nat) : zero.byte a = 0 := by
  simp only [byte, zero, Vector.getElem?_replicate]
  split <;> rfl

theorem byte_setIfInBounds (m : Memory) (a k : Nat) (b : UInt8) (ha : a < size) :
    (Memory.mk (m.bytes.setIfInBounds a b)).byte k = if a = k then b else m.byte k := by
  have ha' : a < 4096 := ha
  simp only [byte, Vector.getElem?_setIfInBounds]
  split
  · simp
  · rfl

/-- The bytes placed stand in order from `start` on; all others are kept. -/
theorem byte_place (m : Memory) (start : Nat) (data : List UInt8) (a : Nat)
    (h : start + data.length ≤ size) :
    (m.place start data).byte a =
      if start ≤ a ∧ a < start + data.length then data[a - start]?.getD 0 else m.byte a := by
  induction data generalizing m start with
  | nil => rw [place, if_neg (by simp only [List.length_nil]; omega)]
  | cons b rest ih =>
    simp only [List.length_cons] at h ⊢
    rw [place, ih _ _ (by omega), byte_setIfInBounds _ _ _ _ (by omega)]
    rcases Nat.lt_trichotomy a start with hlt | rfl | hgt
    · simp [show ¬ start + 1 ≤ a by omega, show ¬ start ≤ a by omega, show start ≠ a by omega]
    · simp [show ¬ a + 1 ≤ a by omega]
    · obtain ⟨k, rfl⟩ : ∃ k, a = start + 1 + k := ⟨a - (start + 1), by omega⟩
      simp [show start + 1 + k - start = k + 1 by omega, show start ≤ start + 1 + k by omega,
        show start ≠ start + 1 + k by omega,
        show start + 1 + k < start + (rest.length + 1) ↔ start + 1 + k < start + 1 + rest.length
          by omega]

theorem length_slice (m : Memory) (start len : Nat) : (m.slice start len).length = len := by
  simp [slice]

theorem getElem?_slice {m : Memory} {start len r : Nat} {b : UInt8} :
    (m.slice start len)[r]? = some b ↔ r < len ∧ m.byte (start + r) = b := by
  by_cases hr : r < len
  · simp [slice, hr]
  · simp [slice, hr]

/-- Two memories that agree byte by byte are the same. -/
theorem ext_byte {m n : Memory} (h : ∀ a, a < size → m.byte a = n.byte a) : m = n := by
  obtain ⟨mb⟩ := m
  obtain ⟨nb⟩ := n
  congr 1
  apply Vector.ext
  intro a ha
  have := h a ha
  simpa [byte, ha] using this

end Memory

end Chip8
