/-!
# The call stack

Sixteen slots for the addresses of calls that have not returned. Only the first `depth` slots
count; what an earlier call left in a slot above them stays there until the slot is used again,
and nothing reads it. The view of a stack is therefore its live part, oldest call first.
-/

set_option autoImplicit false

namespace Chip8

/-- The addresses of the calls under way. -/
structure CallStack where
  slots : Vector UInt16 16
  /-- How many slots are in use. -/
  depth : Nat
  depth_le : depth ≤ 16
deriving DecidableEq

namespace CallStack

/-- How many calls can be under way at once. -/
def capacity : Nat := 16

/-- No call under way, and every slot zero. -/
def empty : CallStack := ⟨Vector.replicate 16 0, 0, by decide⟩

/-- The addresses in use, oldest first. -/
def live (s : CallStack) : List UInt16 := s.slots.toList.take s.depth

/-- Puts an address on top, if a slot is free. -/
def push? (s : CallStack) (a : UInt16) : Option CallStack :=
  if h : s.depth < 16 then some ⟨s.slots.set s.depth a, s.depth + 1, h⟩ else none

/-- Takes the address on top, if there is one. The slot keeps what it holds. -/
def pop? (s : CallStack) : Option (UInt16 × CallStack) :=
  if h : 0 < s.depth then
    have := s.depth_le
    some (s.slots[s.depth - 1], ⟨s.slots, s.depth - 1, by omega⟩)
  else none

/-! ## The operations through the view -/

theorem length_live (s : CallStack) : s.live.length = s.depth := by
  have := s.depth_le
  simp [live]
  omega

theorem live_push? {s t : CallStack} {a : UInt16} (h : s.push? a = some t) :
    t.live = s.live ++ [a] := by
  unfold push? at h
  split at h
  · next hd =>
    cases h
    simp only [live, Vector.toList_set]
    rw [List.take_add_one, List.take_set_of_le (Nat.le_refl _)]
    simp [hd]
  · cases h

theorem live_pop? {s t : CallStack} {a : UInt16} (h : s.pop? = some (a, t)) :
    s.live = t.live ++ [a] := by
  unfold pop? at h
  split at h
  · next hd =>
    have hle := s.depth_le
    cases h
    simp only [live]
    obtain ⟨d, hd'⟩ : ∃ d, s.depth = d + 1 := ⟨s.depth - 1, by omega⟩
    simp only [hd', Nat.add_sub_cancel, List.take_add_one]
    have : d < 16 := by omega
    simp [this]
  · cases h

/-- A push fails exactly at sixteen calls. -/
theorem push?_eq_none {s : CallStack} {a : UInt16} : s.push? a = none ↔ s.depth = 16 := by
  have := s.depth_le
  unfold push?
  split <;> simp <;> omega

/-- A pop fails exactly with no call under way. -/
theorem pop?_eq_none {s : CallStack} : s.pop? = none ↔ s.depth = 0 := by
  unfold pop?
  split <;> simp <;> omega

end CallStack

end Chip8
