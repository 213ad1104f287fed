import Chip8.Proofs.Cycle

/-!
# When a cycle fails

Whether a cycle fails is known before it is run. It depends on the word at the counter, on how full
the call stack is and on how far the index lies, and on nothing else. `Machine.obstacle?` puts these
together in the order in which they are met. It looks at words by their nibbles alone, from a
catalogue of its own, and neither reads instructions nor runs them.

**A step fails exactly with the obstacle in its way** (`Session.step_fails_exactly`), and where there
is none it succeeds. The proof is a chain of equations for one function, `faultOf`, from the parts
of the machine up to the step; the instruction set is gone through once (`faultOf_execute`), to see
that those not named as failing never fail.
-/

set_option autoImplicit false

namespace Chip8

/-! ## The catalogue -/

namespace Nibbles

/-- The families all of whose words are instructions: `0NNN` (with `00E0` and `00EE`) to `4XNN`,
`6XNN`, `7XNN`, and `ANNN` to `DXYN`. -/
def wholeFamilies : List (Fin 16) := [0x0, 0x1, 0x2, 0x3, 0x4, 0x6, 0x7, 0xA, 0xB, 0xC, 0xD]

/-- The instructions told by family and last nibble: `5XY0`, `8XY0` to `8XY7`, `8XYE`, `9XY0`. -/
def byLastNibble : List (Fin 16 × Fin 16) :=
  [(0x5, 0x0), (0x8, 0x0), (0x8, 0x1), (0x8, 0x2), (0x8, 0x3), (0x8, 0x4), (0x8, 0x5), (0x8, 0x6),
    (0x8, 0x7), (0x8, 0xE), (0x9, 0x0)]

/-- The instructions told by family and lower byte, `EX9E` to `FX65`. -/
def byLowerByte : List (Fin 16 × UInt8) :=
  [(0xE, 0x9E), (0xE, 0xA1), (0xF, 0x07), (0xF, 0x0A), (0xF, 0x15), (0xF, 0x18), (0xF, 0x1E),
    (0xF, 0x29), (0xF, 0x33), (0xF, 0x55), (0xF, 0x65)]

/-- Is the word in the catalogue of instructions? -/
def Catalogued (b : Nibbles) : Prop :=
  b.family ∈ wholeFamilies ∨ (b.family, b.n) ∈ byLastNibble ∨ (b.family, b.byte) ∈ byLowerByte

instance (b : Nibbles) : Decidable b.Catalogued := by
  unfold Catalogued
  infer_instance

/-- How many bytes from the index on the word works with: `DXYN`, `FX33`, and `FX55` and `FX65`. -/
def reach? (b : Nibbles) : Option Nat :=
  if b.family = 0xD then some b.n
  else if b.family = 0xF ∧ b.byte = 0x33 then some 3
  else if b.family = 0xF ∧ (b.byte = 0x55 ∨ b.byte = 0x65) then some (b.x + 1)
  else none

end Nibbles

namespace Instruction

theorem catalogued_nibbles (ins : Instruction) : ins.nibbles.Catalogued := by
  unfold Nibbles.Catalogued
  cases ins with
  | skipIf c =>
    cases c with
    | byteIs _ _ | byteIsNot _ _ =>
      simp [nibbles, Condition.nibbles, Nibbles.wholeFamilies]
    | same _ _ | differ _ _ => simp [nibbles, Condition.nibbles, Nibbles.byLastNibble]
    | keyDown _ | keyUp _ => simp [nibbles, Condition.nibbles, Nibbles.byLowerByte]
  | arith op x y =>
    refine Or.inr (Or.inl ?_)
    cases op <;> simp [nibbles, ArithOp.selector, Nibbles.byLastNibble]
  | sys _ | clear | ret | jump _ | call _ | setByte _ _ | addByte _ _ | setIndex _ | jumpOffset _
  | random _ _ | draw _ _ _ => simp [nibbles, Nibbles.wholeFamilies]
  | readDelay _ | awaitKey _ | setDelay _ | setSound _ | addIndex _ | pointGlyph _ | storeDecimal _
  | storeRegisters _ | loadRegisters _ => simp [nibbles, Nibbles.byLowerByte]

theorem ofNibbles?_ne_none {b : Nibbles} (h : b.Catalogued) : ofNibbles? b ≠ none := by
  have whole : ∀ f ∈ Nibbles.wholeFamilies, b.family = f → ofNibbles? b ≠ none := by
    simp +contextual [Nibbles.wholeFamilies, ofNibbles?]
  have last : ∀ p ∈ Nibbles.byLastNibble, b.family = p.1 → b.n = p.2 → ofNibbles? b ≠ none := by
    simp +contextual [Nibbles.byLastNibble, ofNibbles?, ArithOp.ofSelector?]
  have lower : ∀ p ∈ Nibbles.byLowerByte, b.family = p.1 → b.byte = p.2 →
      ofNibbles? b ≠ none := by
    simp +contextual [Nibbles.byLowerByte, ofNibbles?, ofKeyByte?, ofRegisterByte?]
  rcases h with h | h | h
  · exact whole _ h rfl
  · exact last _ h rfl rfl
  · exact lower _ h rfl rfl

/-- The catalogue and the reader of instructions agree. -/
theorem ofNibbles?_eq_none {b : Nibbles} : ofNibbles? b = none ↔ ¬ b.Catalogued := by
  refine ⟨fun hnone hb => ofNibbles?_ne_none hb hnone, fun hb => ?_⟩
  cases hins : ofNibbles? b with
  | none => rfl
  | some ins =>
    rw [← nibbles_of_ofNibbles? hins] at hb
    exact absurd ins.catalogued_nibbles hb

end Instruction

/-! ## Obstacles -/

namespace Machine

/-- The fault of working with `len` bytes from the index on, if they run past the end. -/
def beyond? (m : Machine) (len : Nat) : Option Fault :=
  if 0x1000 < m.i.toNat + len then some (.outOfBounds (max m.i.toNat 0x1000)) else none

/-- What is in the way of a word of the catalogue. -/
def obstacleOf? (m : Machine) (b : Nibbles) : Option Fault :=
  if (b.family = 0x0 ∧ b.address = 0x0EE) ∧ m.stack.depth = 0 then some (.stackUnderflow m.pc)
  else if b.family = 0x2 ∧ m.stack.depth = 16 then some (.stackOverflow m.pc)
  else b.reach?.bind m.beyond?

/-- What is in the way of the next cycle. -/
def obstacle? (m : Machine) : Option Fault :=
  if 0x0FFE < m.pc.toNat then some (.outOfBounds (max m.pc.toNat 0x1000))
  else
    let w := m.memory.word m.pc.toNat
    if (Nibbles.ofWord w).Catalogued then m.obstacleOf? (.ofWord w)
    else some (.unknownOpcode w m.pc)

end Machine

/-- The fault that a result is, if it is one. -/
def faultOf {α : Type} : Except Fault α → Option Fault
  | .error fault => some fault
  | .ok _ => none

theorem faultOf_map {α β : Type} (f : α → β) (r : Except Fault α) :
    faultOf (r.map f) = faultOf r := by
  cases r with
  | error fault => rfl
  | ok a => rfl

theorem faultOf_eq_some {α : Type} {r : Except Fault α} {fault : Fault} :
    faultOf r = some fault ↔ r = .error fault := by
  cases r with
  | error fault' => simp [faultOf]
  | ok a => simp [faultOf]

theorem faultOf_eq_none {α : Type} {r : Except Fault α} :
    faultOf r = none ↔ ∃ a, r = .ok a := by
  cases r with
  | error fault => simp [faultOf]
  | ok a => simp [faultOf]

/-- Every access to memory is granted or refused in the same way. -/
theorem faultOf_access {α : Type} (start len : Nat) (a : α) :
    faultOf (if start + len ≤ Memory.size then .ok a else .error (Memory.refusal start)) =
      if 0x1000 < start + len then some (.outOfBounds (max start 0x1000)) else none := by
  by_cases h : start + len ≤ Memory.size
  · have hnot : ¬ 0x1000 < start + len := Nat.not_lt_of_le h
    rw [if_pos h, if_neg hnot]
    rfl
  · have hlt : 0x1000 < start + len := Nat.lt_of_not_le h
    rw [if_neg h, if_pos hlt]
    rfl

namespace Machine

variable (m : Machine)

theorem faultOf_read (len : Nat) : faultOf (m.memory.read m.i.toNat len) = m.beyond? len :=
  faultOf_access _ _ _

theorem faultOf_store (data : List UInt8) :
    faultOf (m.store m.i.toNat data) = m.beyond? data.length := by
  rw [store, faultOf_map]
  exact faultOf_access _ _ _

theorem faultOf_push (a : UInt16) :
    faultOf (m.push a) =
      if m.stack.depth = 16 then some (.stackOverflow m.pc) else none := by
  unfold push
  cases hp : m.stack.push? a with
  | none =>
    rw [if_pos (CallStack.push?_eq_none.mp hp)]
    rfl
  | some stack =>
    have hfree : m.stack.depth ≠ 16 := fun h => by
      rw [CallStack.push?_eq_none.mpr h] at hp
      cases hp
    rw [if_neg hfree]
    rfl

theorem faultOf_pop :
    faultOf m.pop = if m.stack.depth = 0 then some (.stackUnderflow m.pc) else none := by
  unfold pop
  cases hp : m.stack.pop? with
  | none =>
    rw [if_pos (CallStack.pop?_eq_none.mp hp)]
    rfl
  | some popped =>
    have hcall : m.stack.depth ≠ 0 := fun h => by
      rw [CallStack.pop?_eq_none.mpr h] at hp
      cases hp
    rw [if_neg hcall]
    rfl

end Machine

/-- What is in the way of a word is what its instruction fails with. -/
theorem Instruction.faultOf_execute (m : Machine) {b : Nibbles} {ins : Instruction}
    (h : ofNibbles? b = some ins) : faultOf (ins.execute m) = m.obstacleOf? b := by
  have hb : ins.nibbles = b := nibbles_of_ofNibbles? h
  subst hb
  unfold Machine.obstacleOf? Nibbles.reach?
  cases ins with
  | sys a =>
    -- The word `00EE` is read as a return.
    have ha : a ≠ 0x0EE := by
      rintro rfl
      cases h
    simp [nibbles, ha, execute, faultOf]
  | ret => simp [nibbles, execute, faultOf_map, m.faultOf_pop]
  | call a => simp [nibbles, execute, faultOf_map, m.faultOf_push]
  | draw x y height => simp [nibbles, execute, faultOf_map, m.faultOf_read]
  | storeDecimal x =>
    simp only [execute, faultOf_map, m.faultOf_store]
    simp [nibbles, Machine.decimalDigits]
  | storeRegisters x =>
    simp only [execute, faultOf_map, m.faultOf_store, m.length_take_v x]
    simp [nibbles]
  | loadRegisters x => simp [nibbles, execute, faultOf_map, m.faultOf_read]
  | skipIf c =>
    cases c <;> simp [nibbles, Condition.nibbles, execute, faultOf]
  | clear | jump _ | setByte _ _ | addByte _ _ | arith _ _ _ | setIndex _ | jumpOffset _
  | random _ _ | readDelay _ | awaitKey _ | setDelay _ | setSound _ | addIndex _ | pointGlyph _ =>
    simp [nibbles, execute, faultOf]

namespace Machine

theorem faultOf_executeWord (m : Machine) (w : UInt16) :
    faultOf (m.executeWord w) =
      if (Nibbles.ofWord w).Catalogued then m.obstacleOf? (.ofWord w)
      else some (.unknownOpcode w m.pc) := by
  unfold executeWord Instruction.decode
  cases hins : Instruction.ofNibbles? (.ofWord w) with
  | none =>
    rw [if_neg (Instruction.ofNibbles?_eq_none.mp hins)]
    rfl
  | some ins =>
    have hw : (Nibbles.ofWord w).Catalogued := by
      rw [← Instruction.nibbles_of_ofNibbles? hins]
      exact ins.catalogued_nibbles
    rw [if_pos hw, ← Instruction.faultOf_execute m hins]

theorem faultOf_cycle (m : Machine) : faultOf m.cycle = m.obstacle? := by
  unfold cycle obstacle?
  by_cases hpc : 0x0FFE < m.pc.toNat
  · have hfetch : m.fetch = .error (.outOfBounds (max m.pc.toNat 0x1000)) := by
      have hend : ¬ m.pc.toNat + 2 ≤ Memory.size := by
        show ¬ m.pc.toNat + 2 ≤ 4096
        omega
      exact if_neg hend
    rw [hfetch, if_pos hpc]
    rfl
  · have hfetch : m.fetch = .ok (m.memory.word m.pc.toNat) := by
      have hend : m.pc.toNat + 2 ≤ Memory.size := by
        show m.pc.toNat + 2 ≤ 4096
        omega
      exact if_pos hend
    rw [hfetch, if_neg hpc]
    dsimp only
    rw [← m.faultOf_executeWord]
    cases m.executeWord (m.memory.word m.pc.toNat) with
    | error fault => rfl
    | ok q => rfl

theorem nibbles_of_next? {m : Machine} {ins : Instruction} (h : m.next? = some ins) :
    ins.nibbles = .ofWord (m.memory.word m.pc.toNat) := by
  unfold next? fetch Memory.readWord at h
  split at h
  · next w hw =>
    split at hw
    · rw [Except.ok.inj hw]
      exact Instruction.nibbles_of_ofNibbles? h
    · cases hw
  · cases h

end Machine

/-! ## The whole statement -/

namespace Session

theorem faultOf_step {s : Session} (h : s.fault = none) :
    faultOf s.step.result = s.machine.obstacle? := by
  rw [← s.machine.faultOf_cycle]
  cases hc : s.machine.cycle with
  | error fault =>
    rw [step_of_error h hc]
    rfl
  | ok r =>
    rw [step_of_ok h (show s.machine.cycle = .ok (r.1, r.2) from hc)]
    rfl

theorem word_of_awaitingKey {s : Session} (h : s.step.result = .ok .awaitingKey) :
    let b := Nibbles.ofWord (s.machine.memory.word s.machine.pc.toNat)
    b.family = 0xF ∧ b.byte = 0x0A := by
  intro b
  obtain ⟨ins, flow, m', hn, he, hc, -⟩ := step_eq_ok h
  have hwait : flow = .wait := by
    refine Decidable.byContradiction fun hflow => ?_
    rw [Machine.finishCycle, if_neg hflow] at hc
    cases hc
  obtain ⟨x, rfl⟩ := (Machine.executes_of_execute he).awaitKey_of_wait hwait
  have hb : (Instruction.awaitKey x).nibbles = b :=
    Machine.nibbles_of_next? (next?_eq_some.mp hn).2
  rw [← hb]
  exact ⟨Nibbles.family_ofByte _ _ _, Nibbles.byte_ofByte _ _ _⟩

/-- **A step fails exactly with the obstacle in its way**, in whatever state the machine is, as long
as no fault has stopped it: past the last word, at a word that is not in the catalogue, at a return
with no call under way or a call with sixteen, or where the bytes from the index on run past the end
of memory. In every other case it succeeds; a sprite of no rows is drawn as far as the end of memory
itself; and only a wait for a key waits. -/
theorem step_fails_exactly (s : Session) (h : s.fault = none) :
    let m := s.machine
    let b := Nibbles.ofWord (m.memory.word m.pc.toNat)
    (∀ fault, s.step.result = .error fault ↔ m.obstacle? = some fault) ∧
    ((∃ c, s.step.result = .ok c) ↔ m.obstacle? = none) ∧
    (m.pc.toNat ≤ 0x0FFE → b.family = 0xD → b.n = 0x0 →
      ((∃ c, s.step.result = .ok c) ↔ m.i.toNat ≤ 0x1000)) ∧
    (s.step.result = .ok .awaitingKey → b.family = 0xF ∧ b.byte = 0x0A) := by
  intro m b
  have hfault : faultOf s.step.result = m.obstacle? := faultOf_step h
  have hok : (∃ c, s.step.result = .ok c) ↔ m.obstacle? = none := by
    rw [← hfault, faultOf_eq_none]
  refine ⟨fun fault => ?_, hok, fun hpc hfamily hrows => ?_, word_of_awaitingKey⟩
  · rw [← hfault, faultOf_eq_some]
  · have hcatalogued : b.Catalogued := Or.inl (by rw [hfamily]; decide)
    have hobstacle : m.obstacle? = m.beyond? 0 := by
      show (if _ then _ else if b.Catalogued then m.obstacleOf? b else _) = _
      rw [if_neg (Nat.not_lt_of_le hpc), if_pos hcatalogued]
      simp [Machine.obstacleOf?, Nibbles.reach?, hfamily, hrows]
    rw [hok, hobstacle, Machine.beyond?]
    simp

/-- Two registers are to be loaded with the index at the last byte of memory. -/
theorem load_past_end_fails :
    let s := (fresh (.ofSeed 0)).runOps [.load [0xAF, 0xFF, 0xF1, 0x65], .step]
    s.fault = none ∧ s.step.result = .error (.outOfBounds 0x1000) := by
  intro s
  have hs : s.fault = none ∧ s.machine.obstacle? = some (.outOfBounds 0x1000) := by
    decide +kernel
  exact ⟨hs.1, ((step_fails_exactly s hs.1).1 _).mpr hs.2⟩

end Session

end Chip8
