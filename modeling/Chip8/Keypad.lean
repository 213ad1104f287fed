/-!
# The keypad

Sixteen keys named by the hexadecimal digits. Which of them are down is a set of keys, kept as
one word with a bit a key.
-/

set_option autoImplicit false

namespace Chip8

/-- The number of a key. -/
abbrev Key := Fin 16

/-- How many keys there are. -/
def keyCount : Nat := 16

/-- A set of keys. -/
structure KeySet where
  bits : BitVec 16
deriving DecidableEq

namespace KeySet

/-- Is a key in the set? -/
def contains (s : KeySet) (k : Key) : Bool := s.bits.getLsbD k

instance : Membership Key KeySet := ⟨fun s k => s.contains k = true⟩

instance (k : Key) (s : KeySet) : Decidable (k ∈ s) := inferInstanceAs (Decidable (_ = true))

instance : EmptyCollection KeySet := ⟨⟨0⟩⟩

instance : Inter KeySet := ⟨fun s t => ⟨s.bits &&& t.bits⟩⟩

instance : SDiff KeySet := ⟨fun s t => ⟨s.bits &&& ~~~t.bits⟩⟩

/-- The set with a key added. -/
def insert (s : KeySet) (k : Key) : KeySet := ⟨s.bits ||| BitVec.twoPow 16 k⟩

/-- The set with a key taken away. -/
def erase (s : KeySet) (k : Key) : KeySet := ⟨s.bits &&& ~~~BitVec.twoPow 16 k⟩

/-- The keys of the set in ascending order. -/
def toList (s : KeySet) : List Key := (List.finRange 16).filter (s.contains ·)

/-- The set of the keys of a list. -/
def ofList (ks : List Key) : KeySet := ks.foldl insert ∅

/-- The lowest key of the set, if it has one. -/
def lowest? (s : KeySet) : Option Key := (List.finRange 16).find? (s.contains ·)

/-! ## Membership -/

theorem mem_iff {k : Key} {s : KeySet} : k ∈ s ↔ s.bits.getLsbD k = true := Iff.rfl

@[simp] theorem not_mem_empty (k : Key) : ¬ k ∈ (∅ : KeySet) := by
  have : (∅ : KeySet).bits = 0#16 := rfl
  simp [mem_iff, this]

@[simp] theorem mem_inter {k : Key} {s t : KeySet} : k ∈ s ∩ t ↔ k ∈ s ∧ k ∈ t := by
  have : (s ∩ t).bits = s.bits &&& t.bits := rfl
  simp [mem_iff, this]

@[simp] theorem mem_sdiff {k : Key} {s t : KeySet} : k ∈ s \ t ↔ k ∈ s ∧ ¬ k ∈ t := by
  have : (s \ t).bits = s.bits &&& ~~~t.bits := rfl
  simp [mem_iff, this]

@[simp] theorem mem_insert {k j : Key} {s : KeySet} : k ∈ s.insert j ↔ k = j ∨ k ∈ s := by
  simp [mem_iff, insert, Fin.ext_iff, or_comm]

@[simp] theorem mem_erase {k j : Key} {s : KeySet} : k ∈ s.erase j ↔ k ≠ j ∧ k ∈ s := by
  simp [mem_iff, erase, Fin.ext_iff, and_comm]

/-- A set is given by its keys. -/
theorem ext_mem {s t : KeySet} (h : ∀ k, k ∈ s ↔ k ∈ t) : s = t := by
  obtain ⟨a⟩ := s
  obtain ⟨b⟩ := t
  congr 1
  apply BitVec.eq_of_getLsbD_eq
  intro i hi
  exact Bool.eq_iff_iff.mpr (h ⟨i, hi⟩)

@[simp] theorem mem_toList {k : Key} {s : KeySet} : k ∈ s.toList ↔ k ∈ s := by
  simp only [toList, List.mem_filter, List.mem_finRange, true_and]
  exact Iff.rfl

/-- There is no lowest key exactly where there is no key. -/
theorem lowest?_eq_none {s : KeySet} : s.lowest? = none ↔ ∀ k, ¬ k ∈ s := by
  simp [lowest?, mem_iff, contains]

/-- The lowest key of a set is in it, and below every other. -/
theorem lowest?_eq_some {k : Key} {s : KeySet} (h : s.lowest? = some k) :
    k ∈ s ∧ ∀ j ∈ s, k ≤ j := by
  obtain ⟨hk, i, hi, hget, hbefore⟩ := List.find?_eq_some_iff_getElem.mp h
  refine ⟨hk, fun j hj => Nat.le_of_not_lt fun hlt => ?_⟩
  have hji : j.val < i := by
    rw [← hget, List.getElem_finRange] at hlt
    exact hlt
  have hlength : j.val < (List.finRange 16).length := Nat.lt_trans hji hi
  have hget' : (List.finRange 16)[j.val] = j := List.getElem_finRange hlength
  have hnot := hbefore j hji
  rw [hget', show s.contains j = true from hj] at hnot
  cases hnot

end KeySet

end Chip8
