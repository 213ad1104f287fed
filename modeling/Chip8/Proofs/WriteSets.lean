import Chip8.Proofs.Arithmetic
import Chip8.Proofs.Deeds
import Chip8.Proofs.Painting
import Chip8.Proofs.RegisterDump

/-!
# What a step may write

A machine is made of parts: each register, each slot of the stack, each byte of memory, and the
fields that are written as a whole. For every instruction `Machine.MayWrite` lists the parts that
it may write, and `Machine.pcAfter` says where the counter goes, which every instruction moves or
holds. Neither knows how an instruction is run.

**A step writes no part that its instruction may not write** (`Session.step_writes_only`). Most of
it is known already: control from `Machine.Executes`, the stores from `Machine.Effect`, and the
frame from `Instruction.execute_painted`. The instruction set is gone through for the registers and
the index, and once more for the way the counter goes on.
-/

set_option autoImplicit false

namespace Chip8

/-- A part of a machine that is written as a whole. The counter is not among them. -/
inductive Part where
  | reg (k : Register)
  | index
  | slot (k : Fin 16)
  | depth
  | byte (a : Nat)
  | frame
  | mark
  | delay
  | sound
  | keys
  | held
  | random

/-- The operations on two registers that write `VF` beside their result. -/
def ArithOp.flagged : List ArithOp := [add, sub, shiftRight, subFrom, shiftLeft]

namespace Machine

/-- Is a part of a later machine as it was? -/
def Keeps (m m' : Machine) : Part → Prop
  | .reg k => m'.v.get k = m.v.get k
  | .index => m'.i = m.i
  | .slot k => m'.stack.slots.get k = m.stack.slots.get k
  | .depth => m'.stack.depth = m.stack.depth
  | .byte a => m'.memory.byte a = m.memory.byte a
  | .frame => m'.frame = m.frame
  | .mark => m'.dirty = m.dirty
  | .delay => m'.delay = m.delay
  | .sound => m'.sound = m.sound
  | .keys => m'.keys = m.keys
  | .held => m'.heldOnWait = m.heldOnWait
  | .random => m'.random = m.random

/-- May an instruction write a part, in a cycle that ends with `c`? A wait that goes on writes no
register. -/
def MayWrite (m : Machine) (ins : Instruction) (c : Cycle) : Part → Prop
  | .reg k =>
    match ins with
    | .setByte x _ | .addByte x _ | .random x _ | .readDelay x => k = x
    | .arith op x _ => k = x ∨ k = 0xF ∧ op ∈ ArithOp.flagged
    | .awaitKey x => k = x ∧ c ≠ .awaitingKey
    | .draw _ _ _ => k = 0xF
    | .loadRegisters x => k ≤ x
    | _ => False
  | .index =>
    match ins with
    | .setIndex _ | .addIndex _ | .pointGlyph _ => True
    | _ => False
  | .slot k =>
    match ins with
    | .call _ => k = m.stack.depth
    | _ => False
  | .depth =>
    match ins with
    | .call _ | .ret => True
    | _ => False
  | .byte a =>
    match ins with
    | .storeDecimal _ => m.i.toNat ≤ a ∧ a < m.i.toNat + 3
    | .storeRegisters x => m.i.toNat ≤ a ∧ a ≤ m.i.toNat + x
    | _ => False
  | .frame =>
    match ins with
    | .clear | .draw _ _ _ => True
    | _ => False
  | .delay =>
    match ins with
    | .setDelay _ => True
    | _ => False
  | .sound =>
    match ins with
    | .setSound _ => True
    | _ => False
  | .held =>
    match ins with
    | .awaitKey _ => True
    | _ => False
  | .random =>
    match ins with
    | .random _ _ => True
    | _ => False
  | .keys | .mark => False

/-- What the condition of a skip says. -/
def Meets (m : Machine) : Condition → Prop
  | .byteIs x b => m.v.get x = b
  | .byteIsNot x b => m.v.get x ≠ b
  | .same x y => m.v.get x = m.v.get y
  | .differ x y => m.v.get x ≠ m.v.get y
  | .keyDown x => ∃ k ∈ m.keys, k.val = (m.v.get x).toNat
  | .keyUp x => ∀ k ∈ m.keys, k.val ≠ (m.v.get x).toNat

instance (m : Machine) : (condition : Condition) → Decidable (m.Meets condition)
  | .byteIs x b => inferInstanceAs (Decidable (m.v.get x = b))
  | .byteIsNot x b => inferInstanceAs (Decidable (m.v.get x ≠ b))
  | .same x y => inferInstanceAs (Decidable (m.v.get x = m.v.get y))
  | .differ x y => inferInstanceAs (Decidable (m.v.get x ≠ m.v.get y))
  | .keyDown x => inferInstanceAs (Decidable (∃ k, k ∈ m.keys ∧ k.val = (m.v.get x).toNat))
  | .keyUp x => inferInstanceAs (Decidable (∀ k, k ∈ m.keys → k.val ≠ (m.v.get x).toNat))

/-- Where the counter is after a cycle that ends with `c`. -/
def pcAfter (m : Machine) (ins : Instruction) (c : Cycle) : UInt16 :=
  match ins with
  | .jump a | .call a => UInt16.ofNat a
  | .jumpOffset a => UInt16.ofNat ((m.v.get 0).toNat + a)
  | .ret => m.stack.live.getLastD 0 + 2
  | .awaitKey _ => if c = .awaitingKey then m.pc else m.pc + 2
  | .skipIf condition => if m.Meets condition then m.pc + 4 else m.pc + 2
  | _ => m.pc + 2

/-! ## Registers and index -/

theorem get_arith_of_ne (m : Machine) {op : ArithOp} (x y : Register) {k : Register} (hx : k ≠ x)
    (hflag : k = 0xF → op ∉ ArithOp.flagged) : (m.arith op x y).v.get k = m.v.get k := by
  unfold arith
  split
  next result flag heval =>
  cases flag with
  | none => exact m.get_setReg_of_ne hx result
  | some flag =>
    have hk : k ≠ 0xF := by
      intro hk
      have hop := hflag hk
      cases op with
      | copy | or | and | xor => cases heval
      | add | sub | shiftRight | subFrom | shiftLeft => exact hop (by decide)
    rw [get_setReg_of_ne _ hx]
    exact m.get_setReg_of_ne hk _

theorem arith_i (m : Machine) (op : ArithOp) (x y : Register) : (m.arith op x y).i = m.i := by
  unfold arith
  split
  split
  · rfl
  · rfl

theorem finishCycle_fst (m : Machine) (flow : Flow) :
    (m.finishCycle flow).1 = .awaitingKey ↔ flow = .wait := by
  unfold finishCycle
  split
  · next h => simp [h]
  · next h => simp [h]

end Machine

namespace Instruction

variable {m m' : Machine} {ins : Instruction} {flow : Flow}

/-- Registers that may not be written are kept, and so is the index. -/
theorem registers_of_execute (h : ins.execute m = .ok (flow, m')) :
    (∀ k, ¬ m.MayWrite ins (m'.finishCycle flow).1 (.reg k) → m'.v.get k = m.v.get k) ∧
      (¬ m.MayWrite ins (m'.finishCycle flow).1 .index → m'.i = m.i) := by
  cases ins with
  | setByte x _ | addByte x _ | readDelay x =>
    cases h
    exact ⟨fun k hk => m.get_setReg_of_ne hk _, fun _ => rfl⟩
  | random x mask =>
    cases h
    exact ⟨fun k hk => Machine.get_setReg_of_ne { m with random := m.random.tail } hk _,
      fun _ => rfl⟩
  | arith op x y =>
    cases h
    refine ⟨fun k hk => ?_, fun _ => m.arith_i op x y⟩
    obtain ⟨hx, hflag⟩ := not_or.mp hk
    exact m.get_arith_of_ne x y hx fun hf hop => hflag ⟨hf, hop⟩
  | awaitKey x =>
    have hx : m.awaitKey x = (flow, m') := Except.ok.inj h
    unfold Machine.awaitKey at hx
    split at hx
    · cases hx
      refine ⟨fun k hk => m.get_setReg_of_ne (fun hkx => hk ⟨hkx, ?_⟩) _, fun _ => rfl⟩
      exact fun hc => nomatch (Machine.finishCycle_fst _ _).mp hc
    · cases hx
      exact ⟨fun _ _ => rfl, fun _ => rfl⟩
  | draw x y height =>
    obtain ⟨sprite, -, hq⟩ := Except.map_eq_ok.mp h
    cases hq
    exact ⟨fun k hk => m.get_setReg_of_ne hk _, fun _ => rfl⟩
  | loadRegisters x =>
    obtain ⟨bytes, hread, hq⟩ := Except.map_eq_ok.mp h
    cases hq
    refine ⟨fun k hk => ?_, fun _ => m.setRegs_i bytes⟩
    have hbehind : bytes.length ≤ k := by
      rw [Machine.read_eq_ok hread, Memory.length_slice]
      exact Nat.succ_le_of_lt (Nat.lt_of_not_le hk)
    rw [m.get_setRegs, List.getElem?_eq_none hbehind]
    rfl
  | ret =>
    obtain ⟨⟨a, n⟩, hp, hq⟩ := Except.map_eq_ok.mp h
    obtain ⟨stack, -, rfl⟩ := Machine.pop_eq_ok hp
    cases hq
    exact ⟨fun _ _ => rfl, fun _ => rfl⟩
  | call a =>
    obtain ⟨n, hp, hq⟩ := Except.map_eq_ok.mp h
    obtain ⟨stack, -, rfl⟩ := Machine.push_eq_ok hp
    cases hq
    exact ⟨fun _ _ => rfl, fun _ => rfl⟩
  | storeDecimal x | storeRegisters x =>
    obtain ⟨n, hs, hq⟩ := Except.map_eq_ok.mp h
    obtain ⟨memory, rfl⟩ := Machine.store_eq_ok hs
    cases hq
    exact ⟨fun _ _ => rfl, fun _ => rfl⟩
  | setIndex _ | addIndex _ | pointGlyph _ =>
    cases h
    exact ⟨fun _ _ => rfl, fun hi => absurd trivial hi⟩
  | sys _ | clear | jump _ | jumpOffset _ | skipIf _ | setDelay _ | setSound _ =>
    cases h
    exact ⟨fun _ _ => rfl, fun _ => rfl⟩

end Instruction

/-! ## Control -/

namespace Machine

theorem holds_iff (m : Machine) (condition : Condition) :
    m.holds condition = true ↔ m.Meets condition := by
  have hkey : ∀ x, m.keyDown x = true ↔ ∃ k ∈ m.keys, k.val = (m.v.get x).toNat := by
    intro x
    unfold keyDown
    split
    · next hx =>
      refine ⟨fun hdown => ⟨_, hdown, rfl⟩, ?_⟩
      rintro ⟨k, hk, hkx⟩
      rwa [show k = ⟨_, hx⟩ from Fin.ext hkx] at hk
    · next hx =>
      constructor
      · intro hdown
        cases hdown
      · rintro ⟨k, -, hkx⟩
        exact absurd (hkx ▸ k.isLt) hx
  cases condition with
  | byteIs x b => exact beq_iff_eq
  | byteIsNot x b => exact bne_iff_ne
  | same x y => exact beq_iff_eq
  | differ x y => exact bne_iff_ne
  | keyDown x => exact hkey x
  | keyUp x =>
    rw [holds, Bool.not_eq_true', ← Bool.not_eq_true, hkey x]
    exact ⟨fun hup k hk hkx => hup ⟨k, hk, hkx⟩, fun hup ⟨k, hk, hkx⟩ => hup k hk hkx⟩

variable {m m' : Machine} {ins : Instruction} {flow : Flow}

theorem flow_of_straight (hs : ins.isStraight = true) (h : ins.execute m = .ok (flow, m')) :
    flow = match ins with
      | .skipIf condition => .skipWhen (m.holds condition)
      | _ => .next := by
  cases ins with
  | ret | call _ | jump _ | jumpOffset _ | awaitKey _ => cases hs
  | draw _ _ _ | storeDecimal _ | storeRegisters _ | loadRegisters _ =>
    obtain ⟨_, -, hq⟩ := Except.map_eq_ok.mp h
    cases hq
    rfl
  | _ =>
    cases h
    rfl

theorem flow_of_awaitKey (m : Machine) (x : Register) :
    (m.awaitKey x).1 = .wait ∨ (m.awaitKey x).1 = .next := by
  unfold awaitKey
  split
  · exact Or.inr rfl
  · exact Or.inl rfl

theorem pc_of_execute (h : ins.execute m = .ok (flow, m')) :
    flow.advance m'.pc = m.pcAfter ins (m'.finishCycle flow).1 := by
  cases executes_of_execute h with
  | @ret a _ popped =>
    have htop : m.stack.live.getLastD 0 = a := by
      rw [CallStack.live_pop? popped, List.getLastD_concat]
    exact congrArg (· + 2) htop.symm
  | call _ | jump _ | jumpOffset _ => rfl
  | awaitKey x =>
    have hc := (m.awaitKey x).2.finishCycle_fst (m.awaitKey x).1
    rw [(m.awaitKey_keeps x).2.1]
    show _ = if _ then m.pc else m.pc + 2
    rcases m.flow_of_awaitKey x with hflow | hflow
    · rw [if_pos (hc.mpr hflow), hflow]
      rfl
    · rw [if_neg (mt hc.mp (by rw [hflow]; decide)), hflow]
      rfl
  | straight hs _ same =>
    rw [same.pc, flow_of_straight hs h]
    cases ins with
    | ret | call _ | jump _ | jumpOffset _ | awaitKey _ => cases hs
    | skipIf condition =>
      show (Flow.skipWhen _).advance m.pc = if m.Meets condition then m.pc + 4 else m.pc + 2
      by_cases hmeets : m.Meets condition
      · rw [if_pos hmeets, (m.holds_iff condition).mpr hmeets]
        rfl
      · rw [if_neg hmeets, Bool.eq_false_iff.mpr (mt (m.holds_iff condition).mp hmeets)]
        rfl
    | _ => rfl

/-- Of the stack only a call and a return write anything, and a return no slot. The wait is written
by waits, and the keys by nobody. -/
theorem control_of_execute (h : ins.execute m = .ok (flow, m')) {c : Cycle} :
    (∀ k, ¬ m.MayWrite ins c (.slot k) → m.Keeps m' (.slot k)) ∧
      (¬ m.MayWrite ins c .depth → m.Keeps m' .depth) ∧
      (¬ m.MayWrite ins c .held → m.Keeps m' .held) ∧ m.Keeps m' .keys := by
  cases executes_of_execute h with
  | ret popped =>
    refine ⟨fun k _ => ?_, fun hd => absurd trivial hd, fun _ => rfl, rfl⟩
    unfold CallStack.pop? at popped
    split at popped
    · cases popped
      rfl
    · cases popped
  | call pushed =>
    refine ⟨fun k hk => ?_, fun hd => absurd trivial hd, fun _ => rfl, rfl⟩
    unfold CallStack.push? at pushed
    split at pushed
    · next hfree =>
      cases pushed
      exact Vector.getElem_set_ne hfree k.isLt (Ne.symm hk)
    · cases pushed
  | jump _ | jumpOffset _ => exact ⟨fun _ _ => rfl, fun _ => rfl, fun _ => rfl, rfl⟩
  | awaitKey x =>
    obtain ⟨hstack, -, -, hkeys⟩ := m.awaitKey_keeps x
    exact ⟨fun k _ => by rw [Keeps, hstack], fun _ => by rw [Keeps, hstack],
      fun hh => absurd trivial hh, hkeys⟩
  | straight hs _ same =>
    exact ⟨fun k _ => by rw [Keeps, same.stack], fun _ => by rw [Keeps, same.stack],
      fun _ => same.heldOnWait, same.keys⟩

/-! ## All parts -/

/-- What an instruction may not write is as it was; of the mark the end of the cycle disposes. -/
theorem keeps_of_execute (h : ins.execute m = .ok (flow, m')) {p : Part} (hmark : p ≠ .mark)
    (hp : ¬ m.MayWrite ins (m'.finishCycle flow).1 p) : m.Keeps m' p := by
  have heffect := Instruction.execute_effect h
  obtain ⟨hslot, hdepth, hheld, hkeys⟩ := control_of_execute h
  cases p with
  | reg k => exact (Instruction.registers_of_execute h).1 k hp
  | index => exact (Instruction.registers_of_execute h).2 hp
  | slot k => exact hslot k hp
  | depth => exact hdepth hp
  | held => exact hheld hp
  | keys => exact hkeys
  | mark => exact absurd rfl hmark
  | byte a =>
    have hwrites : m.writes? ins a = none := by
      cases ins with
      | storeDecimal _ | storeRegisters _ => exact if_neg hp
      | _ => rfl
    rw [Keeps, heffect.byte a, hwrites, Option.getD_none]
  | frame =>
    have hpainted : m.painted ins = m.frame := by
      cases ins with
      | clear | draw _ _ _ => exact absurd trivial hp
      | _ => rfl
    rw [Keeps, (Instruction.execute_painted h).1, hpainted]
  | delay =>
    have hsets : m.sets? ins .delay = none := by
      cases ins with
      | setDelay _ => exact absurd trivial hp
      | _ => rfl
    have hkept := heffect.timer .delay
    rwa [hsets] at hkept
  | sound =>
    have hsets : m.sets? ins .sound = none := by
      cases ins with
      | setSound _ => exact absurd trivial hp
      | _ => rfl
    have hkept := heffect.timer .sound
    rwa [hsets] at hkept
  | random =>
    have hdraws : ins.draws = false := by
      cases ins with
      | random _ _ => exact absurd trivial hp
      | _ => rfl
    have hkept := heffect.random
    rwa [hdraws] at hkept

/-- The parts and the counter are the whole machine. -/
theorem eq_of_keeps (h : ∀ p, m.Keeps m' p) : m' = { m with pc := m'.pc } := by
  have hv : m'.v = m.v := Vector.ext fun k hk => h (.reg ⟨k, hk⟩)
  have hslots : m'.stack.slots = m.stack.slots := Vector.ext fun k hk => h (.slot ⟨k, hk⟩)
  have hmemory : m'.memory = m.memory := Memory.ext_byte fun a _ => h (.byte a)
  obtain
    ⟨v, i, pc, ⟨slots, depth, hle⟩, delay, sound, memory, frame, dirty, keys, held, random⟩ := m
  cases hv
  cases hslots
  cases hmemory
  cases h .index
  cases h .depth
  cases h .frame
  cases h .mark
  cases h .delay
  cases h .sound
  cases h .keys
  cases h .held
  cases h .random
  rfl

end Machine

namespace Session

/-- **A step writes no part that its instruction may not write**, in every session that an owner can
bring about, and it takes the counter where the instruction says. -/
theorem step_writes_only {s : Session} {random : RandomStream} {ops : List Op} {c : Cycle}
    (hs : (fresh random).runOps ops = s) (h : s.step.result = .ok c) :
    let m := s.machine
    let m' := s.step.after.machine
    ∃ ins, s.next? = some ins ∧ (∀ p, ¬ m.Keeps m' p → m.MayWrite ins c p) ∧
      m'.pc = m.pcAfter ins c ∧ ∀ a, ins = .sys a → m' = { m with pc := m.pc + 2 } := by
  intro m m'
  have hsound : s.machine.Sound := by
    rw [← hs]
    exact sound_runOps random ops
  obtain ⟨ins, flow, ran, hn, he, rfl, hafter⟩ := step_eq_ok h
  have hend : m' = { ran with
      pc := flow.advance ran.pc, dirty := if flow = .wait then ran.dirty else false } := by
    show s.step.after.machine = _
    rw [hafter, Machine.finishCycle_snd]
  have hkeeps : ∀ p, ¬ m.MayWrite ins (ran.finishCycle flow).1 p → m.Keeps m' p := by
    intro p hp
    by_cases hmark : p = .mark
    · -- Nobody is owed news between operations.
      rw [hmark]
      exact (sound_step hsound).clean.trans hsound.clean.symm
    · have hran := Machine.keeps_of_execute he hmark hp
      rw [hend]
      cases p with
      | mark => exact absurd rfl hmark
      | _ => exact hran
  have hpc : m'.pc = m.pcAfter ins (ran.finishCycle flow).1 := by
    rw [hend]
    exact Machine.pc_of_execute he
  refine ⟨ins, hn, fun p => not_imp_comm.mp (hkeeps p), hpc, ?_⟩
  rintro a rfl
  have hall : ∀ p, m.Keeps m' p := by
    intro p
    refine hkeeps p ?_
    cases p <;> exact id
  rw [Machine.eq_of_keeps hall, hpc]
  rfl

/-- Two registers are loaded; of the others, and of the index, it is known beforehand that they
stay. -/
theorem others_stay_when_two_loaded :
    let s := (fresh (.ofSeed 0)).runOps [.load [0xA0, 0x05, 0xF1, 0x65], .step]
    let after := s.step.after.machine
    s.step.result = .ok (.executed false) ∧
      (∀ k : Register, 1 < k → after.v.get k = s.machine.v.get k) ∧ after.i = 5 ∧
      after.pc = 0x204 := by
  intro s after
  obtain ⟨hresult, hnext, hi, hpc⟩ : s.step.result = .ok (.executed false) ∧
      s.next? = some (.loadRegisters 1) ∧ s.machine.i = 5 ∧ s.machine.pc = 0x202 := by
    decide +kernel
  have hs : (fresh (.ofSeed 0)).runOps _ = s := rfl
  obtain ⟨ins, hins, hwrites, hafter, -⟩ := step_writes_only hs hresult
  clear_value s
  cases Option.some.inj (hnext.symm.trans hins)
  refine ⟨hresult, fun k hk => ?_, ?_, ?_⟩
  · refine Classical.byContradiction fun hchanged => ?_
    have hle : k ≤ 1 := hwrites (.reg k) hchanged
    exact absurd hk (Fin.not_lt.mpr hle)
  · have hkept : after.i = s.machine.i :=
      Classical.byContradiction fun hchanged => hwrites .index hchanged
    rw [hkept, hi]
  · have hnext : after.pc = s.machine.pc + 2 := hafter
    rw [hnext, hpc]
    rfl

end Session

end Chip8
