import Chip8.Proofs.Pixels
import Chip8.Proofs.Soundness

/-!
# Painting

Who changes the frame, and who hears of it. Of all instructions two paint: `clear`, and `draw` if
its sprite has anything on it; the others, and a `draw` with nothing to draw, leave the frame
(`Instruction.execute_painted`). A step that paints tells of it and no other step does, because
between operations nobody is owed news (`Session.executed_true_iff`).

So the frame after any operation but a reset is known from the steps that paint
(`Session.step_of_not_paints`, `Session.perform_quiet`). A reset darkens the frame and tells
nobody.
-/

set_option autoImplicit false

namespace Chip8

namespace Machine

/-- The frame that an instruction leaves. -/
def painted (m : Machine) (ins : Instruction) : Frame :=
  match ins with
  | .clear => .dark
  | .draw x y height =>
    m.frame.draw (m.v.get x).toNat (m.v.get y).toNat (m.memory.slice m.i.toNat height)
  | _ => m.frame

/-- Does an instruction paint: clear the frame, or draw a sprite with a byte that is not zero? -/
def paints (m : Machine) (ins : Instruction) : Bool :=
  match ins with
  | .clear => true
  | .draw _ _ height => (m.memory.slice m.i.toNat height).any (· != 0)
  | _ => false

theorem painted_of_not_paints {m : Machine} {ins : Instruction} (h : m.paints ins = false) :
    m.painted ins = m.frame := by
  cases ins with
  | clear => cases h
  | draw x y height => exact Frame.draw_of_blank _ _ _ _ h
  | _ => rfl

end Machine

/-- What an instruction does to the frame and to the mark that it has changed. -/
theorem Instruction.execute_painted {ins : Instruction} {m m' : Machine} {flow : Flow}
    (h : ins.execute m = .ok (flow, m')) :
    m'.frame = m.painted ins ∧ m'.dirty = (m.dirty || m.paints ins) := by
  cases ins with
  | clear =>
    cases h
    simp [Machine.painted, Machine.paints]
  | draw x y height =>
    -- A read that is granted gives the slice that the two definitions look at.
    obtain ⟨sprite, hread, hq⟩ := Except.map_eq_ok.mp h
    have hsprite : sprite = m.memory.slice m.i.toNat height := Machine.read_eq_ok hread
    cases hq
    subst hsprite
    exact ⟨rfl, rfl⟩
  | ret =>
    obtain ⟨⟨a, n⟩, hp, hq⟩ := Except.map_eq_ok.mp h
    obtain ⟨stack, -, rfl⟩ := Machine.pop_eq_ok hp
    cases hq
    simp [Machine.painted, Machine.paints]
  | call a =>
    obtain ⟨n, hp, hq⟩ := Except.map_eq_ok.mp h
    obtain ⟨stack, -, rfl⟩ := Machine.push_eq_ok hp
    cases hq
    simp [Machine.painted, Machine.paints]
  | storeDecimal x | storeRegisters x =>
    obtain ⟨n, hs, hq⟩ := Except.map_eq_ok.mp h
    obtain ⟨memory, rfl⟩ := Machine.store_eq_ok hs
    cases hq
    simp [Machine.painted, Machine.paints]
  | loadRegisters x =>
    obtain ⟨bytes, -, hq⟩ := Except.map_eq_ok.mp h
    cases hq
    simp [Machine.painted, Machine.paints, Machine.setRegs]
  | arith op x y =>
    cases h
    simp only [Machine.painted, Machine.paints, Machine.arith]
    cases op.eval m.v[x] m.v[y] with
    | mk result flag =>
      cases flag with
      | none => simp [Machine.setReg]
      | some flag => simp [Machine.setReg, Machine.setFlag]
  | awaitKey x =>
    have hm : (m.awaitKey x).2 = m' := congrArg Prod.snd (Except.ok.inj h)
    subst hm
    unfold Machine.awaitKey
    split
    · simp [Machine.painted, Machine.paints, Machine.setReg]
    · simp [Machine.painted, Machine.paints]
  | sys _ | jump _ | jumpOffset _ | skipIf _ | setByte _ _ | addByte _ _ | setIndex _ | random _ _
  | readDelay _ | setDelay _ | setSound _ | addIndex _ | pointGlyph _ =>
    cases h
    simp [Machine.painted, Machine.paints, Machine.setReg]

namespace Session

/-- Does the next step succeed in painting? -/
def paints (s : Session) : Bool :=
  match s.next?, s.step.result with
  | some ins, .ok _ => s.machine.paints ins
  | _, _ => false

theorem paints_of_ok {s : Session} {ins : Instruction} {c : Cycle} (hn : s.next? = some ins)
    (hc : s.step.result = .ok c) : s.paints = s.machine.paints ins := by
  unfold paints
  rw [hn, hc]

theorem paints_of_error {s : Session} {fault : Fault} (h : s.step.result = .error fault) :
    s.paints = false := by
  unfold paints
  rw [h]
  cases s.next? with
  | none => rfl
  | some ins => rfl

theorem frame_of_step {s : Session} {ins : Instruction} {c : Cycle} (hn : s.next? = some ins)
    (hc : s.step.result = .ok c) : s.step.after.machine.frame = s.machine.painted ins := by
  obtain ⟨ins', flow, m', hn', he, -, hafter⟩ := step_eq_ok hc
  rw [hn] at hn'
  cases hn'
  rw [hafter, Machine.finishCycle_snd]
  exact (Instruction.execute_painted he).1

theorem step_of_not_paints {s : Session} (h : s.paints = false) :
    s.step.after.machine.frame = s.machine.frame := by
  cases hr : s.step.result with
  | error fault => rw [(step_of_result_error hr).1]
  | ok c =>
    obtain ⟨ins, flow, m', hn, -⟩ := step_eq_ok hr
    rw [paints_of_ok hn hr] at h
    rw [frame_of_step hn hr, Machine.painted_of_not_paints h]

/-- **A step tells of a change exactly if it paints**, where no news has been held back. -/
theorem executed_true_iff {s : Session} (hs : s.machine.dirty = false) :
    s.step.result = .ok (.executed true) ↔ s.paints = true := by
  cases hr : s.step.result with
  | error fault => simp [paints_of_error hr]
  | ok c =>
    obtain ⟨ins, flow, m', hn, he, rfl, -⟩ := step_eq_ok hr
    have hdirty : m'.dirty = s.machine.paints ins := by
      rw [(Instruction.execute_painted he).2, hs, Bool.false_or]
    rw [paints_of_ok hn hr, ← hdirty]
    unfold Machine.finishCycle
    split
    · next hwait =>
      -- An instruction that waits does not paint.
      obtain ⟨x, rfl⟩ := (Machine.executes_of_execute he).awaitKey_of_wait hwait
      rw [hdirty]
      simp [Machine.paints]
    · simp

end Session

end Chip8
