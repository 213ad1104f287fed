import Chip8.Session

/-!
# What a cycle does

A run of a machine is made of cycles, and a proof about runs needs to know of a cycle which
instruction it runs (`Machine.next?`) and what that instruction may do. The second is said once,
for all instructions, by the relation `Machine.Executes`: a return pops, a call pushes, a jump
sets the counter, a wait asks the keypad, and **every other instruction is straight**, which is
to say that it leaves the call stack, the counter, the keypad and the wait as they were.

`Session.step_cases` carries this over to the step of a session. It is the only place where the
definitions of the cycle are taken apart; an invariant of sessions is proved from its three
cases, and does not look at the instruction set again.
-/

set_option autoImplicit false

namespace Chip8

theorem Except.map_eq_ok {ε α β : Type} {f : α → β} {x : Except ε α} {b : β} :
    x.map f = .ok b ↔ ∃ a, x = .ok a ∧ f a = b := by
  cases x with
  | error e => simp [Except.map]
  | ok a => simp [Except.map]

namespace Flow

/-- By how much the counter moves on. -/
def distance : Flow → Nat
  | next => 2
  | skip => 4
  | jump | wait => 0

theorem toNat_advance {flow : Flow} {pc : UInt16} (h : pc.toNat + flow.distance < 65536) :
    (flow.advance pc).toNat = pc.toNat + flow.distance := by
  cases flow with
  | next => exact (UInt16.toNat_add pc 2).trans (Nat.mod_eq_of_lt h)
  | skip => exact (UInt16.toNat_add pc 4).trans (Nat.mod_eq_of_lt h)
  | jump | wait => rfl

end Flow

namespace Machine

/-! ## Control

The fields that decide where a run goes: the stack, the counter and what is known of the keys. -/

/-- Two machines with the same stack, counter, keys and wait. -/
structure SameControl (m m' : Machine) : Prop where
  stack : m'.stack = m.stack
  pc : m'.pc = m.pc
  keys : m'.keys = m.keys
  heldOnWait : m'.heldOnWait = m.heldOnWait

theorem sameControl_setRegs (m : Machine) (bytes : List UInt8) :
    SameControl m (m.setRegs bytes) := by
  unfold setRegs
  exact ⟨rfl, rfl, rfl, rfl⟩

theorem sameControl_drawSprite (m : Machine) (x y : Register) (sprite : List UInt8) :
    SameControl m (m.drawSprite x y sprite) := ⟨rfl, rfl, rfl, rfl⟩

theorem sameControl_arith (m : Machine) (op : ArithOp) (x y : Register) :
    SameControl m (m.arith op x y) := by
  unfold arith
  split
  -- With a flag or without, only registers are written.
  split
  · exact ⟨rfl, rfl, rfl, rfl⟩
  · exact ⟨rfl, rfl, rfl, rfl⟩

theorem length_take_v (m : Machine) (x : Register) :
    (m.v.toList.take (x + 1)).length = x + 1 := by
  rw [List.length_take, Vector.length_toList]
  exact Nat.min_eq_left x.isLt

theorem read_eq_ok {memory : Memory} {start len : Nat} {bytes : List UInt8}
    (h : memory.read start len = .ok bytes) : bytes = memory.slice start len := by
  unfold Memory.read at h
  split at h
  · exact (Except.ok.inj h).symm
  · cases h

theorem store_eq_ok {m m' : Machine} {start : Nat} {data : List UInt8}
    (h : m.store start data = .ok m') : ∃ memory, m' = { m with memory } := by
  obtain ⟨memory, -, rfl⟩ := Except.map_eq_ok.mp h
  exact ⟨memory, rfl⟩

theorem push_eq_ok {m m' : Machine} {a : UInt16} (h : m.push a = .ok m') :
    ∃ stack, m.stack.push? a = some stack ∧ m' = { m with stack } := by
  unfold push at h
  split at h
  · next stack hs =>
    cases h
    exact ⟨stack, hs, rfl⟩
  · cases h

theorem pop_eq_ok {m m' : Machine} {a : UInt16} (h : m.pop = .ok (a, m')) :
    ∃ stack, m.stack.pop? = some (a, stack) ∧ m' = { m with stack } := by
  unfold pop at h
  split at h
  · next stack hs =>
    cases h
    exact ⟨stack, hs, rfl⟩
  · cases h

end Machine

/-- Does the instruction leave the control of the machine alone? -/
def Instruction.isStraight : Instruction → Bool
  | ret | call _ | jump _ | jumpOffset _ | awaitKey _ => false
  | _ => true

namespace Machine

/-- What comes of running an instruction that does not fail, as far as control goes. -/
inductive Executes (m : Machine) : Instruction → Flow → Machine → Prop
  | ret {a : UInt16} {stack : CallStack} (popped : m.stack.pop? = some (a, stack)) :
      Executes m .ret .next { m with stack, pc := a }
  | call {target : Address} {stack : CallStack} (pushed : m.stack.push? m.pc = some stack) :
      Executes m (.call target) .jump { m with stack, pc := UInt16.ofNat target }
  | jump (target : Address) :
      Executes m (.jump target) .jump { m with pc := UInt16.ofNat target }
  | jumpOffset (target : Address) :
      Executes m (.jumpOffset target) .jump
        { m with pc := UInt16.ofNat ((m.v.get 0).toNat + target) }
  | awaitKey (x : Register) : Executes m (.awaitKey x) (m.awaitKey x).1 (m.awaitKey x).2
  | straight {ins : Instruction} {flow : Flow} {m' : Machine} (straight : ins.isStraight = true)
      (onward : flow = .next ∨ flow = .skip) (same : SameControl m m') : Executes m ins flow m'

/-- The relation covers whatever an instruction does. -/
theorem executes_of_execute {m m' : Machine} {ins : Instruction} {flow : Flow}
    (h : ins.execute m = .ok (flow, m')) : Executes m ins flow m' := by
  cases ins with
  -- First the five that have a constructor of their own.
  | ret =>
    obtain ⟨⟨a, n⟩, hp, hq⟩ := Except.map_eq_ok.mp h
    obtain ⟨stack, hs, rfl⟩ := pop_eq_ok hp
    cases hq
    exact .ret hs
  | call a =>
    obtain ⟨n, hp, hq⟩ := Except.map_eq_ok.mp h
    obtain ⟨stack, hs, rfl⟩ := push_eq_ok hp
    cases hq
    exact .call hs
  | jump a => cases h; exact .jump a
  | jumpOffset a => cases h; exact .jumpOffset a
  | awaitKey x =>
    have hx : m.awaitKey x = (flow, m') := Except.ok.inj h
    rw [show flow = (m.awaitKey x).1 by rw [hx], show m' = (m.awaitKey x).2 by rw [hx]]
    exact .awaitKey x
  -- The rest is straight; what has to be seen is that the control is the same.
  | skipIf c =>
    cases h
    refine .straight rfl ?_ ⟨rfl, rfl, rfl, rfl⟩
    unfold Flow.skipWhen
    split
    · exact Or.inr rfl
    · exact Or.inl rfl
  | arith op x y => cases h; exact .straight rfl (Or.inl rfl) (sameControl_arith m op x y)
  | draw x y height =>
    obtain ⟨sprite, -, hq⟩ := Except.map_eq_ok.mp h
    cases hq
    exact .straight rfl (Or.inl rfl) (sameControl_drawSprite m x y sprite)
  | storeDecimal x | storeRegisters x =>
    obtain ⟨n, hs, hq⟩ := Except.map_eq_ok.mp h
    obtain ⟨memory, rfl⟩ := store_eq_ok hs
    cases hq
    exact .straight rfl (Or.inl rfl) ⟨rfl, rfl, rfl, rfl⟩
  | loadRegisters x =>
    obtain ⟨bytes, -, hq⟩ := Except.map_eq_ok.mp h
    cases hq
    exact .straight rfl (Or.inl rfl) (sameControl_setRegs m bytes)
  | sys _ | clear | setByte _ _ | addByte _ _ | setIndex _ | random _ _ | readDelay _
  | setDelay _ | setSound _ | addIndex _ | pointGlyph _ =>
    cases h
    exact .straight rfl (Or.inl rfl) ⟨rfl, rfl, rfl, rfl⟩

theorem Executes.keys {m m' : Machine} {ins : Instruction} {flow : Flow}
    (h : Executes m ins flow m') : m'.keys = m.keys := by
  cases h with
  | ret _ | call _ | jump _ | jumpOffset _ => rfl
  | awaitKey x => unfold Machine.awaitKey; split <;> rfl
  | straight _ _ same => exact same.keys

/-- What the end of a cycle leaves: the counter moved on, and the mark for the frame taken away
unless the machine waits. -/
theorem finishCycle_snd (m : Machine) (flow : Flow) :
    (m.finishCycle flow).2 =
      { m with pc := flow.advance m.pc, dirty := if flow = .wait then m.dirty else false } := by
  unfold finishCycle
  split
  · rfl
  · rfl

/-! ## The instruction of a cycle -/

/-- The instruction that the next cycle runs, if the word at the counter exists and means one. -/
def next? (m : Machine) : Option Instruction :=
  match m.fetch with
  | .ok w => Instruction.ofNibbles? (.ofWord w)
  | .error _ => none

theorem next?_of_fetch {m : Machine} {w : UInt16} {ins : Instruction} (hw : m.fetch = .ok w)
    (hd : Instruction.decode w m.pc = .ok ins) : m.next? = some ins := by
  unfold next?
  rw [hw]
  unfold Instruction.decode at hd
  split at hd
  · next ins' h =>
    cases hd
    exact h
  · cases hd

theorem pc_of_next? {m : Machine} {ins : Instruction} (h : m.next? = some ins) :
    m.pc.toNat ≤ 0x0FFE := by
  unfold next? fetch Memory.readWord at h
  split at h
  · next w hw =>
    split at hw
    · next hle =>
      have : m.pc.toNat + 2 ≤ 4096 := hle
      omega
    · cases hw
  · cases h

theorem toNat_pc_add_two {m : Machine} {ins : Instruction} (h : m.next? = some ins) :
    (m.pc + 2).toNat = m.pc.toNat + 2 := by
  have hpc : m.pc.toNat + Flow.next.distance ≤ 0x0FFE + 2 :=
    Nat.add_le_add_right (pc_of_next? h) 2
  exact Flow.toNat_advance (Nat.lt_of_le_of_lt hpc (by decide))

/-- The cycle runs the instruction it names and ends with its flow. -/
theorem cycle_of_next? {m : Machine} {ins : Instruction} (h : m.next? = some ins) :
    m.cycle = (ins.execute m).map fun p => p.2.finishCycle p.1 := by
  unfold next? at h
  unfold cycle executeWord
  split at h
  · next w hw =>
    have hd : Instruction.decode w m.pc = .ok ins := by
      unfold Instruction.decode
      rw [h]
    rw [hw]
    simp only [hd]
    cases ins.execute m with
    | error e => rfl
    | ok p => rfl
  · cases h

theorem cycle_of_next?_none {m : Machine} (h : m.next? = none) :
    ∃ fault, m.cycle = .error fault := by
  unfold next? at h
  unfold cycle executeWord
  split at h
  · next w hw =>
    rw [hw]
    simp only [Instruction.decode, h]
    exact ⟨_, rfl⟩
  · next e he =>
    rw [he]
    exact ⟨e, rfl⟩

/-- A cycle that does not fail has run an instruction. -/
theorem cycle_eq_ok {m : Machine} {r : Cycle × Machine} (h : m.cycle = .ok r) :
    ∃ ins flow m', m.next? = some ins ∧ Executes m ins flow m' ∧ r = m'.finishCycle flow := by
  cases hn : m.next? with
  | none =>
    obtain ⟨fault, hf⟩ := cycle_of_next?_none hn
    rw [hf] at h
    cases h
  | some ins =>
    rw [cycle_of_next? hn] at h
    obtain ⟨⟨flow, m'⟩, he, rfl⟩ := Except.map_eq_ok.mp h
    exact ⟨ins, flow, m', rfl, executes_of_execute he, rfl⟩

/-- A cycle logs at most the instruction that it is about to run. -/
theorem cycleLog_filter {wanted : LogEntry → Bool}
    (h : ∀ w ins pc i v, wanted (.running w ins pc i v) = false) (m : Machine) :
    m.cycleLog.filter wanted = [] := by
  unfold cycleLog
  split
  · rfl
  · split
    · rfl
    · rw [List.filter_cons_of_neg (by rw [h]; decide)]
      rfl

/-! ## Waiting for a key -/

theorem Executes.awaitKey_of_wait {m m' : Machine} {ins : Instruction} {flow : Flow}
    (h : Executes m ins flow m') (hf : flow = .wait) : ∃ x, ins = .awaitKey x := by
  cases h with
  | awaitKey x => exact ⟨x, rfl⟩
  | ret _ | call _ | jump _ | jumpOffset _ => cases hf
  | straight _ onward _ => rcases onward with rfl | rfl <;> cases hf

theorem cycle_awaitKey_none {m : Machine} {x : Register} (h : m.next? = some (.awaitKey x))
    (hk : (m.keys \ m.heldSinceWait).lowest? = none) :
    m.cycle = .ok (.awaitingKey, { m with heldOnWait := some m.heldSinceWait }) := by
  rw [cycle_of_next? h]
  simp only [Instruction.execute, awaitKey, hk]
  rfl

theorem cycle_awaitKey_some {m : Machine} {x : Register} {k : Key}
    (h : m.next? = some (.awaitKey x)) (hk : (m.keys \ m.heldSinceWait).lowest? = some k) :
    m.cycle = .ok (.executed m.dirty,
      { m.setReg x (UInt8.ofNat k) with
        pc := m.pc + 2, dirty := false, heldOnWait := none }) := by
  rw [cycle_of_next? h]
  simp only [Instruction.execute, awaitKey, hk]
  rfl

end Machine

namespace Session

/-- The instruction that the next step runs; none, if a fault has stopped the machine. -/
def next? (s : Session) : Option Instruction :=
  match s.fault with
  | some _ => none
  | none => s.machine.next?

theorem next?_eq_some {s : Session} {ins : Instruction} :
    s.next? = some ins ↔ s.fault = none ∧ s.machine.next? = some ins := by
  unfold next?
  split
  · next hf => simp [hf]
  · next hf => simp [hf]

theorem step_of_fault {s : Session} {fault : Fault} (h : s.fault = some fault) :
    s.step = ⟨.error fault, s, []⟩ := by
  unfold step
  rw [h]

theorem step_of_error {s : Session} {fault : Fault} (h : s.fault = none)
    (hc : s.machine.cycle = .error fault) :
    s.step = ⟨.error fault, { s with fault := some fault },
      s.machine.cycleLog ++ [.halting fault]⟩ := by
  unfold step
  rw [h]
  simp only [hc]

theorem step_of_ok {s : Session} {c : Cycle} {m : Machine} (h : s.fault = none)
    (hc : s.machine.cycle = .ok (c, m)) :
    s.step = ⟨.ok c, { s with machine := m }, s.machine.cycleLog⟩ := by
  unfold step
  rw [h]
  simp only [hc]

/-- What a step can be: a fault repeated, a cycle that fails, or an instruction run. -/
theorem step_cases (s : Session) :
    (∃ fault, s.fault = some fault ∧ s.step = ⟨.error fault, s, []⟩) ∨
    (s.fault = none ∧ ∃ fault, s.machine.cycle = .error fault ∧
      s.step = ⟨.error fault, { s with fault := some fault },
        s.machine.cycleLog ++ [.halting fault]⟩) ∨
    (∃ ins flow m', s.next? = some ins ∧ s.machine.Executes ins flow m' ∧
      s.step = ⟨.ok (m'.finishCycle flow).1, ⟨(m'.finishCycle flow).2, none⟩,
        s.machine.cycleLog⟩) := by
  cases hf : s.fault with
  | some fault => exact Or.inl ⟨fault, rfl, step_of_fault hf⟩
  | none =>
    refine Or.inr ?_
    cases hc : s.machine.cycle with
    | error fault => exact Or.inl ⟨rfl, fault, rfl, step_of_error hf hc⟩
    | ok r =>
      obtain ⟨ins, flow, m', hn, he, rfl⟩ := Machine.cycle_eq_ok hc
      refine Or.inr ⟨ins, flow, m', next?_eq_some.mpr ⟨hf, hn⟩, he, ?_⟩
      have hc' : s.machine.cycle = .ok ((m'.finishCycle flow).1, (m'.finishCycle flow).2) := hc
      rw [step_of_ok hf hc', ← hf]

/-- A step that fails keeps the machine; and if it is the first, it is the cycle that fails. -/
theorem step_of_result_error {s : Session} {fault : Fault} (h : s.step.result = .error fault) :
    s.step.after = { s with fault := some fault } ∧
      (s.fault = none → s.machine.cycle = .error fault) := by
  rcases s.step_cases with ⟨old, hf, hs⟩ | ⟨hf, new, hc, hs⟩ | ⟨ins, flow, m', -, -, hs⟩
  · rw [hs] at h ⊢
    cases h
    refine ⟨?_, fun hnone => ?_⟩
    · show s = { s with fault := some fault }
      rw [← hf]
    · rw [hf] at hnone
      cases hnone
  · rw [hs] at h ⊢
    cases h
    exact ⟨rfl, fun _ => hc⟩
  · rw [hs] at h
    cases h

/-- A step that does not fail has run its instruction to the end. -/
theorem step_eq_ok {s : Session} {c : Cycle} (h : s.step.result = .ok c) :
    ∃ ins flow m', s.next? = some ins ∧ ins.execute s.machine = .ok (flow, m') ∧
      c = (m'.finishCycle flow).1 ∧ s.step.after = ⟨(m'.finishCycle flow).2, none⟩ := by
  cases hf : s.fault with
  | some fault =>
    rw [step_of_fault hf] at h
    cases h
  | none =>
    cases hn : s.machine.next? with
    | none =>
      obtain ⟨fault, hc⟩ := Machine.cycle_of_next?_none hn
      rw [step_of_error hf hc] at h
      cases h
    | some ins =>
      have hcycle := Machine.cycle_of_next? hn
      cases he : ins.execute s.machine with
      | error fault =>
        rw [he] at hcycle
        rw [step_of_error hf hcycle] at h
        cases h
      | ok p =>
        obtain ⟨flow, m'⟩ := p
        rw [he] at hcycle
        have hstep := step_of_ok hf hcycle
        rw [hstep] at h ⊢
        rw [hf]
        exact ⟨ins, flow, m', next?_eq_some.mpr ⟨hf, hn⟩, he, (Except.ok.inj h).symm, rfl⟩

end Session

end Chip8
