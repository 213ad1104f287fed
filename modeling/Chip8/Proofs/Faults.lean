import Chip8.Proofs.InPlace.Agreement
import Mathlib.Control.Monad.Basic

/-!
# Faults

**A fault is whole and final** (`Session.fault_is_whole_and_final`). It is whole because a cycle
that stops at one, run in place, has changed nothing yet. It is final because the only operation
that takes a fault back is the reset: a step repeats it, and every other operation is quiet. The
warning that the machine halts belongs to the step that first fails, and two of them have a
reset between them.

The timers still tick on a machine that has halted, and its owner may load another program.
-/

set_option autoImplicit false

namespace Chip8

/-- Is the entry the warning that the machine halts? -/
def LogEntry.isHalting : LogEntry → Bool
  | halting _ => true
  | _ => false

namespace Session

/-! ## The fault stays -/

theorem fault_perform {s : Session} {fault : Fault} (h : s.fault = some fault) {op : Op}
    (hop : op ≠ .reset) :
    (s.perform op).after.fault = some fault ∧
      s.machine.SameCore (s.perform op).after.machine := by
  rcases Op.quiet_or_step hop with hq | rfl
  · obtain ⟨hfault, hcore⟩ := s.perform_quiet hq
    exact ⟨hfault.trans h, hcore⟩
  · rw [perform_step_after, step_of_fault h]
    exact ⟨h, .refl _⟩

theorem fault_runOps {s : Session} {fault : Fault} (h : s.fault = some fault) {ops : List Op}
    (hr : .reset ∉ ops) :
    (s.runOps ops).fault = some fault ∧ s.machine.SameCore (s.runOps ops).machine := by
  induction ops generalizing s with
  | nil => exact ⟨h, .refl _⟩
  | cons op ops ih =>
    rw [List.mem_cons, not_or] at hr
    obtain ⟨hfault, hcore⟩ := fault_perform h (Ne.symm hr.1)
    obtain ⟨hfault', hcore'⟩ := ih hfault hr.2
    exact ⟨hfault', hcore.trans hcore'⟩

/-- There is no fault exactly where there was none and every step has gone well. -/
theorem fault_runOps_eq_none {s : Session} {ops : List Op} (hr : .reset ∉ ops) :
    (s.runOps ops).fault = none ↔
      s.fault = none ∧ ∀ t ∈ s.stepsOf ops, ∃ c, t.step.result = .ok c := by
  induction ops generalizing s with
  | nil => simp [stepsOf]
  | cons op ops ih =>
    rw [List.mem_cons, not_or] at hr
    rw [runOps_cons, ih hr.2]
    rcases Op.quiet_or_step (Ne.symm hr.1) with hq | rfl
    · rw [(s.perform_quiet hq).1, stepsOf_cons_quiet s hq]
    · rw [perform_step_after]
      simp only [stepsOf, List.forall_mem_cons]
      rcases s.step_cases with ⟨fault, hf, hs⟩ | ⟨hf, fault, -, hs⟩ | ⟨ins, flow, m', hn, -, hs⟩
      · simp [hs, hf]
      · simp [hs]
      · simp [hs, (next?_eq_some.mp hn).1]

/-! ## The warning -/

theorem cycleLog_filter_isHalting (m : Machine) : m.cycleLog.filter LogEntry.isHalting = [] :=
  m.cycleLog_filter fun _ _ _ _ _ => rfl

/-- What halts a machine in this operation, if something does. -/
def halts? (s : Session) : Op → Option Fault
  | .step =>
    match s.fault, s.machine.cycle with
    | none, .error fault => some fault
    | _, _ => none
  | _ => none

/-- An operation warns of a halt exactly if the machine halts in it. -/
theorem perform_log_filter (s : Session) (op : Op) :
    (s.perform op).log.filter LogEntry.isHalting = (s.halts? op).toList.map .halting := by
  cases op with
  | load program =>
    show (s.load program).log.filter LogEntry.isHalting = []
    unfold load
    split
    · rfl
    · rfl
  | tick =>
    show s.machine.tickLog.filter LogEntry.isHalting = []
    unfold Machine.tickLog
    split
    · rfl
    · rfl
  | press key | release key =>
    show (s.setKey key _).log.filter LogEntry.isHalting = []
    unfold setKey
    split
    · rfl
    · rfl
  | setKeys keys => rfl
  | reset => rfl
  | step =>
    rw [perform_step_log]
    unfold step halts?
    cases s.fault with
    | some fault => rfl
    | none =>
      cases s.machine.cycle with
      | ok r => exact cycleLog_filter_isHalting s.machine
      | error fault =>
        rw [List.filter_append, cycleLog_filter_isHalting]
        rfl

theorem halts?_eq_some {s : Session} {op : Op} {fault : Fault} :
    s.halts? op = some fault ↔
      op = .step ∧ s.fault = none ∧ s.step.result = .error fault := by
  cases op with
  | step =>
    unfold halts? step
    cases s.fault with
    | some old => simp
    | none =>
      cases s.machine.cycle with
      | ok r => simp
      | error fault' => simp
  | load _ | tick | press _ | release _ | setKeys _ | reset => simp [halts?]

theorem mem_perform_log {s : Session} {op : Op} {fault : Fault} :
    .halting fault ∈ (s.perform op).log ↔
      op = .step ∧ s.fault = none ∧ s.step.result = .error fault := by
  rw [← halts?_eq_some]
  constructor
  · intro h
    have hmem : .halting fault ∈ (s.perform op).log.filter LogEntry.isHalting :=
      List.mem_filter.mpr ⟨h, rfl⟩
    rw [perform_log_filter] at hmem
    obtain ⟨fault', hfault', heq⟩ := List.mem_map.mp hmem
    cases heq
    exact Option.mem_toList.mp hfault'
  · intro h
    have hmem : .halting fault ∈ (s.perform op).log.filter LogEntry.isHalting := by
      rw [perform_log_filter, h]
      exact List.mem_singleton.mpr rfl
    exact (List.mem_filter.mp hmem).1

/-- A machine that has halted gives no second warning. -/
theorem logOf_filter_of_fault {s : Session} {fault : Fault} (h : s.fault = some fault)
    {ops : List Op} (hr : .reset ∉ ops) : (s.logOf ops).filter LogEntry.isHalting = [] := by
  induction ops generalizing s with
  | nil => rfl
  | cons op ops ih =>
    rw [List.mem_cons, not_or] at hr
    have hnone : s.halts? op = none := by
      cases op with
      | step => simp [halts?, h]
      | load _ | tick | press _ | release _ | setKeys _ | reset => rfl
    rw [logOf, List.filter_append, perform_log_filter, hnone,
      ih (fault_perform h (Ne.symm hr.1)).1 hr.2]
    rfl

theorem length_logOf_filter_le (s : Session) {ops : List Op} (hr : .reset ∉ ops) :
    ((s.logOf ops).filter LogEntry.isHalting).length ≤ 1 := by
  induction ops generalizing s with
  | nil => exact Nat.zero_le 1
  | cons op ops ih =>
    rw [List.mem_cons, not_or] at hr
    rw [logOf, List.filter_append, perform_log_filter]
    cases hh : s.halts? op with
    | none =>
      -- Nothing so far; the bound is that of the rest.
      exact ih (s.perform op).after hr.2
    | some fault =>
      -- This is the one: the machine has halted, and the rest is silent.
      obtain ⟨rfl, -, herr⟩ := halts?_eq_some.mp hh
      have hfault : (s.perform .step).after.fault = some fault := by
        rw [perform_step_after, (step_of_result_error herr).1]
      rw [logOf_filter_of_fault hfault hr.2]
      exact Nat.le_refl 1

/-! ## The whole statement -/

/-- **A fault is whole and final.** In whatever session an owner has come to, a step that fails
leaves the machine as it was, in place too; until a reset, every later step gives the same fault,
changes nothing and logs nothing; and among operations without a reset at most one warning is
logged that the machine halts, by the first step that fails. -/
theorem fault_is_whole_and_final (random : RandomStream) (before : List Op) :
    let s := (fresh random).runOps before
    (∀ fault, s.step.result = .error fault →
      (s.fault = none → InPlace.cycle.run s.machine = .error (.fault fault) s.machine) ∧
      s.step.after = { s with fault := some fault } ∧
      ∀ later, .reset ∉ later →
        let t := s.step.after.runOps later
        t.step = ⟨.error fault, t, []⟩ ∧ s.machine.SameCore t.machine) ∧
    ∀ stretch, .reset ∉ stretch →
      ((s.logOf stretch).filter LogEntry.isHalting).length ≤ 1 ∧
      ∀ ops op rest fault, stretch = ops ++ op :: rest →
        (.halting fault ∈ ((s.runOps ops).perform op).log ↔
          op = .step ∧ (s.runOps ops).step.result = .error fault ∧
            s.fault = none ∧ ∀ t ∈ s.stepsOf ops, ∃ c, t.step.result = .ok c) := by
  intro s
  refine ⟨?_, ?_⟩
  · intro fault herr
    obtain ⟨hafter, hcycle⟩ := step_of_result_error herr
    refine ⟨?_, hafter, ?_⟩
    · intro hf
      rw [InPlace.run_cycle (sound_runOps random before).live_le, hcycle hf]
      rfl
    · intro later hr
      have hfault : s.step.after.fault = some fault := by
        rw [hafter]
      have hmachine : s.step.after.machine = s.machine := by
        rw [hafter]
      obtain ⟨hlast, hcore⟩ := fault_runOps hfault hr
      rw [hmachine] at hcore
      exact ⟨step_of_fault hlast, hcore⟩
  · intro stretch hr
    refine ⟨s.length_logOf_filter_le hr, ?_⟩
    rintro ops op rest fault rfl
    have hops : .reset ∉ ops := fun h => hr (List.mem_append_left _ h)
    rw [mem_perform_log, fault_runOps_eq_none hops]
    constructor
    · rintro ⟨hop, ⟨hf, hok⟩, herr⟩
      exact ⟨hop, herr, hf, hok⟩
    · rintro ⟨hop, herr, hf, hok⟩
      exact ⟨hop, ⟨hf, hok⟩, herr⟩

/-- A program that begins with a return fails at once, and stays so when another is loaded. -/
theorem fault_of_bare_return :
    let s := (fresh (.ofSeed 0)).runOps [.load [0x00, 0xEE]]
    let t := s.step.after.runOps [.tick, .load [0x12, 0x00], .step]
    s.step.result = .error (.stackUnderflow 0x200) ∧
      t.step = ⟨.error (.stackUnderflow 0x200), t, []⟩ ∧
      ((s.logOf [.step, .tick, .step]).filter LogEntry.isHalting).length ≤ 1 := by
  intro s t
  have herr : s.step.result = .error (.stackUnderflow 0x200) := by decide +kernel
  have hboth := fault_is_whole_and_final (.ofSeed 0) [.load [0x00, 0xEE]]
  have hstays := (hboth.1 _ herr).2.2 [.tick, .load [0x12, 0x00], .step] (by decide)
  exact ⟨herr, hstays.1, (hboth.2 [.step, .tick, .step] (by decide)).1⟩

end Session

end Chip8
