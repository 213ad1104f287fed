import Chip8.Proofs.Periphery
import Chip8.Proofs.Soundness

/-!
# Returns as a list

The instruction set knows no stack of slots. It says of a call that it notes the address behind
itself, and of a return that it goes to the address noted last; at most sixteen are noted at a
time. `ListMachine` is the machine that does just this, and is otherwise the machine there is.

The two keep different numbers. A slot holds the address of the call, and it is the end of the
cycle that moves the counter past it; the list holds where to go on, and a return goes there at
once. **Nobody can tell them apart** (`Session.stack_refines_returns`): every operation gives the
same result, and all but the calls is the same after it. The argument is a function from one to
the other, `Session.listed`, which sees the live part of the stack and nothing above it, and one
square per operation, `listed_perform`.
-/

set_option autoImplicit false

namespace Chip8

/-- A machine that notes where its calls return to, the oldest call first. -/
structure ListMachine where
  /-- All but the calls. The call stack in here stays empty. -/
  base : Machine
  returns : List UInt16
deriving DecidableEq

namespace ListMachine

/-- Notes the address behind the counter and goes to the target. -/
def call (m : ListMachine) (target : Address) : Except Fault (Flow × ListMachine) :=
  if m.returns.length < CallStack.capacity then
    .ok (.jump, ⟨{ m.base with pc := UInt16.ofNat target }, m.returns ++ [m.base.pc + 2]⟩)
  else .error (.stackOverflow m.base.pc)

/-- Goes to the address noted last. -/
def ret (m : ListMachine) : Except Fault (Flow × ListMachine) :=
  match m.returns.getLast? with
  | some a => .ok (.jump, ⟨{ m.base with pc := a }, m.returns.dropLast⟩)
  | none => .error (.stackUnderflow m.base.pc)

/-- Runs one instruction. -/
def execute (m : ListMachine) (ins : Instruction) : Except Fault (Flow × ListMachine) :=
  match ins with
  | .call target => m.call target
  | .ret => m.ret
  | _ => (ins.execute m.base).map fun (flow, base) => (flow, { m with base })

theorem execute_call (m : ListMachine) (a : Address) : m.execute (.call a) = m.call a := rfl

theorem execute_ret (m : ListMachine) : m.execute .ret = m.ret := rfl

theorem execute_base (m : ListMachine) {ins : Instruction} (hcall : ∀ a, ins ≠ .call a)
    (hret : ins ≠ .ret) :
    m.execute ins = (ins.execute m.base).map fun p => (p.1, { m with base := p.2 }) := by
  cases ins with
  | call a => exact absurd rfl (hcall a)
  | ret => exact absurd rfl hret
  | _ => rfl

/-- Runs the instruction that a word means. -/
def executeWord (m : ListMachine) (w : UInt16) : Except Fault (Flow × ListMachine) :=
  match Instruction.decode w m.base.pc with
  | .ok ins => m.execute ins
  | .error fault => .error fault

/-- Ends a cycle whose instruction has run. -/
def finishCycle (m : ListMachine) (flow : Flow) : Cycle × ListMachine :=
  let (cycle, base) := m.base.finishCycle flow
  (cycle, { m with base })

/-- One cycle. -/
def cycle (m : ListMachine) : Except Fault (Cycle × ListMachine) :=
  match m.base.fetch with
  | .error fault => .error fault
  | .ok w =>
    match m.executeWord w with
    | .error fault => .error fault
    | .ok (flow, m) => .ok (m.finishCycle flow)

end ListMachine

/-- A session with such a machine. -/
structure ListSession where
  machine : ListMachine
  fault : Option Fault
deriving DecidableEq

namespace ListSession

open Session (Op Reply)

/-- A session with a fresh machine. -/
def fresh (random : RandomStream) : ListSession := ⟨⟨.fresh random, []⟩, none⟩

/-- Runs one cycle, unless a fault has stopped the machine. -/
def step (s : ListSession) : Outcome ListSession (Except Fault Cycle) :=
  match s.fault with
  | some fault => ⟨.error fault, s, []⟩
  | none =>
    match s.machine.cycle with
    | .ok (cycle, m) => ⟨.ok cycle, { s with machine := m }, s.machine.base.cycleLog⟩
    | .error fault =>
      ⟨.error fault, { s with fault := some fault },
        s.machine.base.cycleLog ++ [.halting fault]⟩

/-- Does one operation. But for steps, only a reset has to do with calls: it forgets them. -/
def perform (s : ListSession) : Op → Outcome ListSession Reply
  | .step => s.step.map .stepped
  | op =>
    let o := (Session.mk s.machine.base s.fault).perform op
    let returns := if op = .reset then [] else s.machine.returns
    ⟨o.result, ⟨⟨o.after.machine, returns⟩, o.after.fault⟩, o.log⟩

/-- The session after some operations, the first of them first. -/
def runOps (s : ListSession) (ops : List Op) : ListSession :=
  ops.foldl (fun s op => (s.perform op).after) s

end ListSession

/-! ## From slots to the list -/

/-- The machine with another call stack. -/
def Machine.withStack (m : Machine) (stack : CallStack) : Machine := { m with stack }

/-- The machine with the returns of its live calls in a list. -/
def Machine.listed (m : Machine) : ListMachine :=
  ⟨m.withStack .empty, m.stack.live.map (· + 2)⟩

/-- The session with the returns of its live calls in a list. -/
def Session.listed (s : Session) : ListSession := ⟨s.machine.listed, s.fault⟩

/-- The same outcome, seen with a list. -/
def Outcome.listed {α : Type} (o : Outcome Session α) : Outcome ListSession α :=
  ⟨o.result, o.after.listed, o.log⟩

namespace Machine

/-! ## Instructions -/

section

variable (m : Machine) (stack : CallStack)

/-- An instruction other than a call and a return neither reads the call stack nor writes it. -/
theorem execute_withStack {ins : Instruction} (hcall : ∀ a, ins ≠ .call a) (hret : ins ≠ .ret) :
    ins.execute (m.withStack stack) =
      (ins.execute m).map fun p => (p.1, p.2.withStack stack) := by
  cases ins with
  | ret => exact absurd rfl hret
  | call a => exact absurd rfl (hcall a)
  | random x mask => rfl
  | _ => exact Instruction.execute_mapInner m (fun _ => stack) id rfl

theorem finishCycle_withStack (flow : Flow) :
    (m.withStack stack).finishCycle flow =
      ((m.finishCycle flow).1, (m.finishCycle flow).2.withStack stack) :=
  m.finishCycle_mapPeriphery (.mapInner (fun _ => stack) id) flow

end

theorem Executes.stack {m m' : Machine} {ins : Instruction} {flow : Flow}
    (h : Executes m ins flow m') (hcall : ∀ a, ins ≠ .call a) (hret : ins ≠ .ret) :
    m'.stack = m.stack := by
  cases h with
  | ret _ => exact absurd rfl hret
  | call _ => exact absurd rfl (hcall _)
  | jump _ | jumpOffset _ => rfl
  | awaitKey x => exact (m.awaitKey_keeps x).1
  | straight _ _ same => exact same.stack

/-! ## The squares -/

/-- What an instruction comes to at the end of its cycle. -/
def complete (m : Machine) (ins : Instruction) : Except Fault (Cycle × Machine) :=
  (ins.execute m).map fun p => p.2.finishCycle p.1

end Machine

/-- What an instruction comes to at the end of its cycle. -/
def ListMachine.complete (m : ListMachine) (ins : Instruction) :
    Except Fault (Cycle × ListMachine) :=
  (m.execute ins).map fun p => p.2.finishCycle p.1

namespace Machine

theorem listed_call (m : Machine) (a : Address) :
    m.listed.complete (.call a) = (m.complete (.call a)).map fun r => (r.1, r.2.listed) := by
  have hlength : m.listed.returns.length = m.stack.depth := by
    simp [listed, CallStack.length_live]
  cases hp : m.stack.push? m.pc with
  | none =>
    have hfull : ¬ m.listed.returns.length < CallStack.capacity := by
      rw [hlength, CallStack.push?_eq_none.mp hp]
      decide
    simp only [complete, ListMachine.complete, ListMachine.execute_call, ListMachine.call,
      if_neg hfull, Instruction.execute, push, hp]
    rfl
  | some stack =>
    have hfree : m.listed.returns.length < CallStack.capacity := by
      rw [hlength]
      refine Nat.lt_of_le_of_ne m.stack.depth_le fun h => ?_
      rw [CallStack.push?_eq_none.mpr h] at hp
      cases hp
    have hreturns : stack.live.map (· + 2) = m.listed.returns ++ [m.pc + 2] := by
      rw [CallStack.live_push? hp, List.map_append]
      rfl
    simp only [complete, ListMachine.complete, ListMachine.execute_call, ListMachine.call,
      if_pos hfree, Instruction.execute, push, hp, Except.map]
    show _ = Except.ok (_, ListMachine.mk _ (stack.live.map (· + 2)))
    rw [hreturns]
    rfl

/-- The slot holds the address of the call and the counter moves on from it; the list holds where
it comes to. -/
theorem listed_ret (m : Machine) :
    m.listed.complete .ret = (m.complete .ret).map fun r => (r.1, r.2.listed) := by
  cases hp : m.stack.pop? with
  | none =>
    have hnone : m.listed.returns.getLast? = none := by
      have hlength : m.stack.live.length = 0 := by
        rw [CallStack.length_live, CallStack.pop?_eq_none.mp hp]
      simp [listed, List.eq_nil_of_length_eq_zero hlength]
    simp only [complete, ListMachine.complete, ListMachine.execute_ret, ListMachine.ret, hnone,
      Instruction.execute, pop, hp]
    rfl
  | some popped =>
    obtain ⟨a, stack⟩ := popped
    have hreturns : m.listed.returns = stack.live.map (· + 2) ++ [a + 2] := by
      show m.stack.live.map (· + 2) = _
      rw [CallStack.live_pop? hp, List.map_append]
      rfl
    simp only [complete, ListMachine.complete, ListMachine.execute_ret, ListMachine.ret, hreturns,
      List.getLast?_concat, List.dropLast_concat, Instruction.execute, pop, hp]
    rfl

theorem listed_complete (m : Machine) (ins : Instruction) :
    m.listed.complete ins = (m.complete ins).map fun r => (r.1, r.2.listed) := by
  by_cases hcall : ∃ a, ins = .call a
  · obtain ⟨a, rfl⟩ := hcall
    exact listed_call m a
  by_cases hret : ins = .ret
  · subst hret
    exact listed_ret m
  -- Neither call nor return: the calls are out of it.
  have hcall : ∀ a, ins ≠ .call a := fun a h => hcall ⟨a, h⟩
  have hbase : m.listed.base = m.withStack .empty := rfl
  rw [ListMachine.complete, complete, m.listed.execute_base hcall hret, hbase,
    execute_withStack m .empty hcall hret]
  cases he : ins.execute m with
  | error fault => rfl
  | ok p =>
    have hstack : p.2.stack = m.stack := (executes_of_execute he).stack hcall hret
    simp only [Except.map, ListMachine.finishCycle, finishCycle_withStack, listed,
      finishCycle_snd, hstack]

theorem cycle_eq_complete (m : Machine) :
    m.cycle = (m.fetch.bind fun w => Instruction.decode w m.pc).bind m.complete := by
  unfold cycle executeWord complete
  cases m.fetch with
  | error fault => rfl
  | ok w =>
    simp only [Except.bind]
    cases Instruction.decode w m.pc with
    | error fault => rfl
    | ok ins =>
      simp only
      cases ins.execute m with
      | error fault => rfl
      | ok p => rfl

end Machine

theorem ListMachine.cycle_eq_complete (m : ListMachine) :
    m.cycle =
      (m.base.fetch.bind fun w => Instruction.decode w m.base.pc).bind m.complete := by
  unfold cycle executeWord complete
  cases m.base.fetch with
  | error fault => rfl
  | ok w =>
    simp only [Except.bind]
    cases Instruction.decode w m.base.pc with
    | error fault => rfl
    | ok ins =>
      simp only
      cases m.execute ins with
      | error fault => rfl
      | ok p => rfl

theorem Machine.listed_cycle (m : Machine) :
    m.listed.cycle = m.cycle.map fun r => (r.1, r.2.listed) := by
  have hfetch : m.listed.base.fetch = m.fetch := rfl
  have hpc : m.listed.base.pc = m.pc := rfl
  rw [ListMachine.cycle_eq_complete, Machine.cycle_eq_complete, hfetch, hpc]
  cases m.fetch.bind fun w => Instruction.decode w m.pc with
  | error fault => rfl
  | ok ins => exact listed_complete m ins

namespace Session

theorem listed_step (s : Session) : s.listed.step = s.step.listed := by
  obtain ⟨m, fault⟩ := s
  cases fault with
  | some fault => rfl
  | none =>
    have hcycle := m.listed_cycle
    have hlog : m.listed.base.cycleLog = m.cycleLog := rfl
    simp only [listed, step, ListSession.step, hcycle, hlog]
    cases m.cycle with
    | error fault => rfl
    | ok r => rfl

/-- The session with another call stack. -/
def withStack (s : Session) (stack : CallStack) : Session :=
  { s with machine := s.machine.withStack stack }

/-- A quiet operation has nothing to do with the call stack. -/
theorem perform_withStack (s : Session) (stack : CallStack) {op : Op} (h : op.isQuiet = true) :
    (s.withStack stack).perform op =
      ⟨(s.perform op).result, (s.perform op).after.withStack stack, (s.perform op).log⟩ :=
  s.perform_quiet_comm (fun _ => stack) id h

/-- **One square per operation.** -/
theorem listed_perform (s : Session) (op : Op) : s.listed.perform op = (s.perform op).listed := by
  by_cases hreset : op = .reset
  · subst hreset
    rfl
  rcases Op.quiet_or_step hreset with hq | rfl
  · have hstep : s.listed.perform op =
        let o := (s.withStack .empty).perform op
        ⟨o.result, ⟨⟨o.after.machine, s.listed.machine.returns⟩, o.after.fault⟩, o.log⟩ := by
      cases op with
      | step | reset => cases hq
      | load _ | tick | press _ | release _ | setKeys _ => rfl
    have hstack := (s.perform_quiet hq).2.stack
    rw [hstep, s.perform_withStack .empty hq]
    simp only [Outcome.listed, listed, Machine.listed, withStack, hstack]
  · show (s.listed.step.map Reply.stepped) = (s.step.map Reply.stepped).listed
    rw [listed_step]
    rfl

theorem listed_runOps (s : Session) (ops : List Op) :
    s.listed.runOps ops = (s.runOps ops).listed := by
  induction ops generalizing s with
  | nil => rfl
  | cons op ops ih =>
    show (s.listed.perform op).after.runOps ops = _
    rw [listed_perform]
    exact ih (s.perform op).after

theorem listed_fresh (random : RandomStream) : (fresh random).listed = .fresh random := rfl

/-! ## The whole statement -/

/-- What lies above the live calls is not seen. -/
theorem listed_eq_of_live (s : Session) {stack : CallStack}
    (h : stack.live = s.machine.stack.live) : (s.withStack stack).listed = s.listed := by
  simp only [listed, Machine.listed, withStack, Machine.withStack, h]

/-- Sessions seen alike answer alike, and are seen alike ever after. -/
theorem perform_eq_of_listed {s s' : Session} (h : s'.listed = s.listed) (later : List Op)
    (op : Op) :
    ((s'.runOps later).perform op).result = ((s.runOps later).perform op).result ∧
      ((s'.runOps later).perform op).log = ((s.runOps later).perform op).log ∧
      (s'.runOps later).listed = (s.runOps later).listed := by
  have hlater : (s'.runOps later).listed = (s.runOps later).listed := by
    rw [← listed_runOps, ← listed_runOps, h]
  have hop : ((s'.runOps later).perform op).listed = ((s.runOps later).perform op).listed := by
    rw [← listed_perform, ← listed_perform, hlater]
  have hresult := congrArg (fun o : Outcome ListSession Reply => o.result) hop
  have hlog := congrArg (fun o : Outcome ListSession Reply => o.log) hop
  exact ⟨hresult, hlog, hlater⟩

/-- What is noted for a call is the address behind it, with nothing lost to the sixteen bits. -/
theorem returns_getElem? {m : Machine} (hm : m.Sound) {k : Nat} (hk : k < m.stack.depth) :
    m.listed.returns[k]?.map UInt16.toNat = m.stack.slots[k]?.map (·.toNat + 2) := by
  have hk16 : k < 16 := Nat.lt_of_lt_of_le hk m.stack.depth_le
  have hlive : m.stack.live[k]? = m.stack.slots[k]? := by
    rw [CallStack.live, List.getElem?_take_of_lt hk, Vector.getElem?_toList]
  obtain ⟨a, ha⟩ : ∃ a, m.stack.slots[k]? = some a := ⟨_, Vector.getElem?_eq_getElem hk16⟩
  have hbound : a.toNat ≤ 0x0FFE := by
    apply hm.live_le
    apply List.mem_of_getElem?
    rw [hlive, ha]
  have hadd : (Flow.next.advance a).toNat = a.toNat + 2 :=
    Flow.toNat_advance (Nat.lt_of_le_of_lt (Nat.add_le_add_right hbound 2) (by decide))
  rw [Machine.listed, List.getElem?_map, hlive, ha]
  exact congrArg some hadd

/-- **A stack of slots is a list of returns.** Whatever has been done with the two, every operation
gives the same result and the same log on both; the machines are the same but for the calls; and
the list is as long as the stack is deep and holds, call by call, the address behind what the slot
holds. So another stack with the same live calls, whatever its other slots hold, answers the same
to everything that follows. -/
theorem stack_refines_returns (random : RandomStream) (ops : List Op) :
    let s := (fresh random).runOps ops
    let t := (ListSession.fresh random).runOps ops
    (∀ op, (t.perform op).result = (s.perform op).result ∧
      (t.perform op).log = (s.perform op).log) ∧
    (t.machine.base = { s.machine with stack := .empty } ∧ t.fault = s.fault) ∧
    (t.machine.returns.length = s.machine.stack.depth ∧ s.machine.stack.depth ≤ 16 ∧
      ∀ k, k < s.machine.stack.depth →
        t.machine.returns[k]?.map UInt16.toNat = s.machine.stack.slots[k]?.map (·.toNat + 2)) ∧
    ∀ stack : CallStack, stack.live = s.machine.stack.live →
      let s' : Session := { s with machine := { s.machine with stack } }
      ∀ later op,
        ((s'.runOps later).perform op).result = ((s.runOps later).perform op).result ∧
        ((s'.runOps later).perform op).log = ((s.runOps later).perform op).log ∧
        (s'.runOps later).listed = (s.runOps later).listed := by
  intro s t
  have ht : t = s.listed := by
    show (ListSession.fresh random).runOps ops = _
    rw [← listed_fresh, listed_runOps]
  have hm : s.machine.Sound := sound_runOps random ops
  rw [ht]
  refine ⟨fun op => ?_, ⟨rfl, rfl⟩, ⟨?_, hm.depth_le, fun k hk => returns_getElem? hm hk⟩, ?_⟩
  · rw [listed_perform]
    exact ⟨rfl, rfl⟩
  · show (s.machine.stack.live.map (· + 2)).length = _
    rw [List.length_map, CallStack.length_live]
  · intro stack hlive s' later op
    exact perform_eq_of_listed (s.listed_eq_of_live hlive) later op

/-- A call within a call has returned and left its address in a slot above the live one. -/
theorem slot_left_behind_is_not_seen :
    let ops : List Op :=
      [.load [0x22, 0x08, 0, 0, 0, 0, 0, 0, 0x22, 0x0C, 0x00, 0xEE, 0x00, 0xEE],
        .step, .step, .step]
    let s := (fresh (.ofSeed 0)).runOps ops
    let stack : CallStack := ⟨Vector.replicate 16 0x200, 1, by decide⟩
    s.machine.stack ≠ stack ∧ s.machine.stack.depth = 1 ∧
      ((ListSession.fresh (.ofSeed 0)).runOps ops).machine.returns[0]?.map UInt16.toNat =
        s.machine.stack.slots[0]?.map (·.toNat + 2) ∧
      (({ s with machine := { s.machine with stack } }.runOps [.step]).perform .step).result =
        ((s.runOps [.step]).perform .step).result := by
  have of_run : ∀ ops stack, let s := (fresh (.ofSeed 0)).runOps ops
      s.machine.stack ≠ stack ∧ s.machine.stack.depth = 1 ∧ stack.live = s.machine.stack.live →
      s.machine.stack ≠ stack ∧ s.machine.stack.depth = 1 ∧
        ((ListSession.fresh (.ofSeed 0)).runOps ops).machine.returns[0]?.map UInt16.toNat =
          s.machine.stack.slots[0]?.map (·.toNat + 2) ∧
        (({ s with machine := { s.machine with stack } }.runOps [.step]).perform .step).result =
          ((s.runOps [.step]).perform .step).result := by
    intro ops stack s h
    obtain ⟨hne, hdepth, hlive⟩ := h
    obtain ⟨-, -, ⟨-, -, hreturns⟩, hstale⟩ := stack_refines_returns (.ofSeed 0) ops
    have hcall : 0 < s.machine.stack.depth := hdepth ▸ Nat.zero_lt_one
    exact ⟨hne, hdepth, hreturns 0 hcall, (hstale stack hlive [.step] .step).1⟩
  exact of_run _ _ (by decide +kernel)

end Session

end Chip8
