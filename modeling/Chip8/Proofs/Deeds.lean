import Chip8.Proofs.History
import Mathlib.Data.List.Induction

/-!
# Deeds

A **deed** is an operation together with the session in which it is done. The deeds of a history
(`Session.deeds`) say more than its operations do: of a step they tell which instruction it has
run (`Deed.executed?`), and with which registers and what in memory.

What an instruction leaves of the timers, of memory and of the random stream is said once, for all
instructions, by `Machine.Effect`: each is as it was, but for what the instruction sets
(`Machine.sets?`), writes (`Machine.writes?`) or draws (`Instruction.draws`). Everything that is
known of these fields along a history comes from `Instruction.execute_effect`, which is the only
proof that looks at the instruction set for it.
-/

set_option autoImplicit false

namespace Chip8

/-! ## What an instruction leaves -/

/-- The two timers. -/
inductive Timer where
  | delay | sound
deriving DecidableEq

/-- Does the instruction draw a random byte? -/
def Instruction.draws : Instruction → Bool
  | random _ _ => true
  | _ => false

/-- A decimal digit of a byte: the hundreds at place 0, the tens at place 1, then the units. -/
def decimalDigit (b : UInt8) : Nat → UInt8
  | 0 => UInt8.ofNat (b.toNat / 100)
  | 1 => UInt8.ofNat (b.toNat / 10 % 10)
  | _ => UInt8.ofNat (b.toNat % 10)

namespace Machine

/-- What a timer stands at. -/
def timer (m : Machine) : Timer → UInt8
  | .delay => m.delay
  | .sound => m.sound

/-- What an instruction sets a timer to, if it sets it. -/
def sets? (m : Machine) (ins : Instruction) (t : Timer) : Option UInt8 :=
  match ins, t with
  | .setDelay x, .delay => some (m.v.get x)
  | .setSound x, .sound => some (m.v.get x)
  | _, _ => none

/-- What an instruction writes to the byte at an address, if it writes there. -/
def writes? (m : Machine) (ins : Instruction) (a : Nat) : Option UInt8 :=
  match ins with
  | .storeDecimal x =>
    if m.i.toNat ≤ a ∧ a < m.i.toNat + 3 then some (decimalDigit (m.v.get x) (a - m.i.toNat))
    else none
  | .storeRegisters x =>
    if m.i.toNat ≤ a ∧ a ≤ m.i.toNat + x then m.v[a - m.i.toNat]? else none
  | _ => none

/-- What an instruction that does not fail leaves of the timers, of memory and of the random
stream. -/
structure Effect (m : Machine) (ins : Instruction) (m' : Machine) : Prop where
  timer : ∀ t, m'.timer t = (m.sets? ins t).getD (m.timer t)
  byte : ∀ a, m'.memory.byte a = (m.writes? ins a).getD (m.memory.byte a)
  random : m'.random = if ins.draws then m.random.tail else m.random

/-- Two machines with the same timers, memory and random stream. -/
structure SameStores (m m' : Machine) : Prop where
  delay : m'.delay = m.delay
  sound : m'.sound = m.sound
  memory : m'.memory = m.memory
  random : m'.random = m.random

theorem SameStores.timer {m m' : Machine} (h : SameStores m m') (t : Timer) :
    m'.timer t = m.timer t := by
  cases t with
  | delay => exact h.delay
  | sound => exact h.sound

theorem sameStores_setRegs (m : Machine) (bytes : List UInt8) :
    SameStores m (m.setRegs bytes) := by
  unfold setRegs
  exact ⟨rfl, rfl, rfl, rfl⟩

theorem sameStores_arith (m : Machine) (op : ArithOp) (x y : Register) :
    SameStores m (m.arith op x y) := by
  unfold arith
  split
  split
  · exact ⟨rfl, rfl, rfl, rfl⟩
  · exact ⟨rfl, rfl, rfl, rfl⟩

theorem sameStores_awaitKey (m : Machine) (x : Register) : SameStores m (m.awaitKey x).2 := by
  unfold awaitKey
  split
  · exact ⟨rfl, rfl, rfl, rfl⟩
  · exact ⟨rfl, rfl, rfl, rfl⟩

end Machine

theorem decimalDigits_eq (b : UInt8) :
    Machine.decimalDigits b = [decimalDigit b 0, decimalDigit b 1, decimalDigit b 2] := by
  have hb := b.toNat_lt
  have hundreds : b / 100 = decimalDigit b 0 := by
    apply UInt8.toNat_inj.mp
    rw [decimalDigit, UInt8.toNat_div, UInt8.toNat_ofNat']
    exact (Nat.mod_eq_of_lt (show b.toNat / 100 < 256 by omega)).symm
  have tens : b / 10 % 10 = decimalDigit b 1 := by
    apply UInt8.toNat_inj.mp
    rw [decimalDigit, UInt8.toNat_mod, UInt8.toNat_div, UInt8.toNat_ofNat']
    exact (Nat.mod_eq_of_lt (show b.toNat / 10 % 10 < 256 by omega)).symm
  have units : b % 10 = decimalDigit b 2 := by
    apply UInt8.toNat_inj.mp
    show (b % 10).toNat = (UInt8.ofNat (b.toNat % 10)).toNat
    rw [UInt8.toNat_mod, UInt8.toNat_ofNat']
    exact (Nat.mod_eq_of_lt (show b.toNat % 10 < 256 by omega)).symm
  rw [Machine.decimalDigits, hundreds, tens, units]

/-- The bytes put into memory stand in order from `start` on; all others are kept. -/
theorem Memory.byte_place_getD (m : Memory) {start : Nat} {data : List UInt8}
    (h : start + data.length ≤ size) (a : Nat) :
    (m.place start data).byte a =
      (if start ≤ a ∧ a < start + data.length then data[a - start]? else none).getD (m.byte a) := by
  rw [m.byte_place start data a h]
  split
  · next hin =>
    have hk : a - start < data.length := by omega
    rw [List.getElem?_eq_getElem hk]
    rfl
  · rfl

namespace Machine

theorem store_effect {m m' : Machine} {ins : Instruction} {data : List UInt8}
    (h : m.store m.i.toNat data = .ok m')
    (hwrites : ∀ a, m.writes? ins a =
      if m.i.toNat ≤ a ∧ a < m.i.toNat + data.length then data[a - m.i.toNat]? else none)
    (hsets : ∀ t, m.sets? ins t = none) (hdraws : ins.draws = false) : Effect m ins m' := by
  obtain ⟨memory, hwrite, rfl⟩ := Except.map_eq_ok.mp h
  unfold Memory.write at hwrite
  split at hwrite
  · next hfits =>
    cases hwrite
    refine ⟨?_, ?_, ?_⟩
    · intro t
      rw [hsets t]
      cases t with
      | delay => rfl
      | sound => rfl
    · intro a
      rw [hwrites a]
      exact m.memory.byte_place_getD hfits a
    · rw [hdraws]
      rfl
  · cases hwrite

theorem writes?_storeDecimal (m : Machine) (x : Register) (a : Nat) :
    let digits := decimalDigits (m.v.get x)
    m.writes? (.storeDecimal x) a =
      if m.i.toNat ≤ a ∧ a < m.i.toNat + digits.length then digits[a - m.i.toNat]? else none := by
  intro digits
  show (if m.i.toNat ≤ a ∧ a < m.i.toNat + 3 then _ else none) =
    if m.i.toNat ≤ a ∧ a < m.i.toNat + 3 then _ else none
  split
  · next hin =>
    obtain ⟨k, rfl⟩ := Nat.exists_eq_add_of_le hin.1
    have hk : k < 3 := Nat.lt_of_add_lt_add_left hin.2
    rw [Nat.add_sub_cancel_left, show digits = _ from decimalDigits_eq (m.v.get x)]
    match k, hk with
    | 0, _ | 1, _ | 2, _ => rfl
  · rfl

theorem writes?_storeRegisters (m : Machine) (x : Register) (a : Nat) :
    let regs := m.v.toList.take (x + 1)
    m.writes? (.storeRegisters x) a =
      if m.i.toNat ≤ a ∧ a < m.i.toNat + regs.length then regs[a - m.i.toNat]? else none := by
  intro regs
  rw [m.length_take_v x]
  show (if m.i.toNat ≤ a ∧ a ≤ m.i.toNat + x then _ else none) = _
  simp only [← Nat.add_assoc, Nat.lt_succ_iff]
  split
  · next hin =>
    have hk : a - m.i.toNat < x + 1 := by omega
    rw [List.getElem?_take_of_lt hk, Vector.getElem?_toList]
  · rfl

end Machine

/-- Does the instruction leave the timers, memory and the random stream alone? -/
def Instruction.keepsStores : Instruction → Bool
  | random _ _ | setDelay _ | setSound _ | storeDecimal _ | storeRegisters _ => false
  | _ => true

namespace Machine

theorem sameStores_of_execute {m m' : Machine} {ins : Instruction} {flow : Flow}
    (hk : ins.keepsStores = true) (h : ins.execute m = .ok (flow, m')) : SameStores m m' := by
  cases ins with
  | random _ _ | setDelay _ | setSound _ | storeDecimal _ | storeRegisters _ => cases hk
  | ret =>
    obtain ⟨⟨a, n⟩, hp, hq⟩ := Except.map_eq_ok.mp h
    obtain ⟨stack, -, rfl⟩ := pop_eq_ok hp
    cases hq
    exact ⟨rfl, rfl, rfl, rfl⟩
  | call a =>
    obtain ⟨n, hp, hq⟩ := Except.map_eq_ok.mp h
    obtain ⟨stack, -, rfl⟩ := push_eq_ok hp
    cases hq
    exact ⟨rfl, rfl, rfl, rfl⟩
  | draw x y height =>
    obtain ⟨sprite, -, hq⟩ := Except.map_eq_ok.mp h
    cases hq
    exact ⟨rfl, rfl, rfl, rfl⟩
  | loadRegisters x =>
    obtain ⟨bytes, -, hq⟩ := Except.map_eq_ok.mp h
    cases hq
    exact sameStores_setRegs m bytes
  | arith op x y =>
    cases h
    exact sameStores_arith m op x y
  | awaitKey x =>
    have hm : (m.awaitKey x).2 = m' := congrArg Prod.snd (Except.ok.inj h)
    rw [← hm]
    exact sameStores_awaitKey m x
  | sys _ | clear | jump _ | jumpOffset _ | skipIf _ | setByte _ _ | addByte _ _ | setIndex _
  | readDelay _ | addIndex _ | pointGlyph _ =>
    cases h
    exact ⟨rfl, rfl, rfl, rfl⟩

theorem SameStores.effect {m m' : Machine} {ins : Instruction} (h : SameStores m m')
    (hk : ins.keepsStores = true) : Effect m ins m' := by
  cases ins with
  | random _ _ | setDelay _ | setSound _ | storeDecimal _ | storeRegisters _ => cases hk
  | _ => exact ⟨h.timer, fun a => congrArg (·.byte a) h.memory, h.random⟩

end Machine

/-- **What an instruction leaves**, whichever it is. -/
theorem Instruction.execute_effect {ins : Instruction} {m m' : Machine} {flow : Flow}
    (h : ins.execute m = .ok (flow, m')) : m.Effect ins m' := by
  by_cases hk : ins.keepsStores = true
  · exact (Machine.sameStores_of_execute hk h).effect hk
  cases ins with
  | setDelay x | setSound x | random x mask =>
    cases h
    refine ⟨fun t => ?_, fun a => rfl, rfl⟩
    cases t with
    | delay => rfl
    | sound => rfl
  | storeDecimal x =>
    obtain ⟨n, hstore, hq⟩ := Except.map_eq_ok.mp h
    cases hq
    exact Machine.store_effect hstore (m.writes?_storeDecimal x) (fun _ => rfl) rfl
  | storeRegisters x =>
    obtain ⟨n, hstore, hq⟩ := Except.map_eq_ok.mp h
    cases hq
    exact Machine.store_effect hstore (m.writes?_storeRegisters x) (fun _ => rfl) rfl
  | _ => exact absurd rfl hk

/-! ## Deeds -/

/-- An operation, and the session in which it is done. -/
structure Deed where
  session : Session
  op : Session.Op

namespace Deed

/-- The session that comes of the deed. -/
def after (d : Deed) : Session := (d.session.perform d.op).after

/-- The instruction that the deed runs, if it is a step that does not fail. -/
def executed? (d : Deed) : Option Instruction :=
  match d.op, d.session.step.result with
  | .step, .ok _ => d.session.next?
  | _, _ => none

theorem executed?_eq_none {d : Deed} (h : d.op ≠ .step) : d.executed? = none := by
  unfold executed?
  split
  · next hop _ => exact absurd hop h
  · rfl

theorem next?_of_executed? {d : Deed} {ins : Instruction} (h : d.executed? = some ins) :
    d.op = .step ∧ d.session.next? = some ins := by
  unfold executed? at h
  split at h
  · next hop _ => exact ⟨hop, h⟩
  · cases h

/-- A step runs an instruction and has its effect, or it fails and leaves the machine. -/
theorem step_cases (s : Session) :
    (∃ ins, executed? ⟨s, .step⟩ = some ins ∧ s.machine.Effect ins s.step.after.machine) ∨
      (executed? ⟨s, .step⟩ = none ∧ s.step.after.machine = s.machine) := by
  cases hr : s.step.result with
  | error fault =>
    refine Or.inr ⟨?_, ?_⟩
    · simp only [executed?, hr]
    · rw [(Session.step_of_result_error hr).1]
  | ok cycle =>
    obtain ⟨ins, flow, m', hn, he, -, hafter⟩ := Session.step_eq_ok hr
    refine Or.inl ⟨ins, ?_, ?_⟩
    · simp only [executed?, hr, hn]
    · -- The end of the cycle moves the counter and takes the mark; it touches no store.
      have heffect := Instruction.execute_effect he
      rw [hafter, Machine.finishCycle_snd]
      exact ⟨heffect.timer, heffect.byte, heffect.random⟩

end Deed

namespace Session

/-- The deeds of a history, the first one first. -/
def deeds (s : Session) : List Op → List Deed
  | [] => []
  | op :: ops => ⟨s, op⟩ :: deeds (s.perform op).after ops

theorem runOps_concat (s : Session) (ops : List Op) (op : Op) :
    s.runOps (ops ++ [op]) = (Deed.mk (s.runOps ops) op).after := by
  rw [runOps_append]
  rfl

theorem deeds_concat (s : Session) (ops : List Op) (op : Op) :
    s.deeds (ops ++ [op]) = s.deeds ops ++ [⟨s.runOps ops, op⟩] := by
  induction ops generalizing s with
  | nil => rfl
  | cons first ops ih => rw [List.cons_append, deeds, ih, runOps_cons, deeds, List.cons_append]

end Session

end Chip8
