import Chip8.Proofs.Soundness
import Mathlib.Control.Monad.Basic
import Mathlib.Data.List.Infix

/-!
# Calls and returns

A call puts its own address on the stack, and it is the end of the cycle that moves the counter
past it when a return has brought it back. **Between the two nothing gets at that address**
(`Session.calls_are_bracketed`): the program may call, jump and overwrite itself, and its owner may
load another, but as long as the stack is deeper than it was, what the call found there and the
address it put on top stay where they are; and only a return can take it off.

The invariant is that the live stack begins with what was there and the address of the call
(`frame_perform` for one operation, `frame_runOps` for all).
-/

set_option autoImplicit false

namespace Chip8

namespace Session

/-! ## One frame -/

/-- A return takes the address on top and goes on behind it. -/
theorem step_of_ret {s : Session} {below : List UInt16} {top : UInt16} (h : s.next? = some .ret)
    (hlive : s.machine.stack.live = below ++ [top]) :
    s.step.result = .ok (.executed s.machine.dirty) ∧
      s.step.after.machine.stack.live = below ∧ s.step.after.machine.pc = top + 2 := by
  obtain ⟨hf, hn⟩ := next?_eq_some.mp h
  cases hp : s.machine.stack.pop? with
  | none =>
    have hlength := congrArg List.length hlive
    rw [CallStack.length_live, CallStack.pop?_eq_none.mp hp, List.length_append] at hlength
    cases hlength
  | some popped =>
    obtain ⟨a, stack⟩ := popped
    have hsplit := CallStack.live_pop? hp
    rw [hlive] at hsplit
    obtain ⟨hbelow, htop⟩ := List.append_inj' hsplit rfl
    cases htop
    have hcycle : s.machine.cycle = .ok (.executed s.machine.dirty,
        { s.machine with stack, pc := top + 2, dirty := false }) := by
      rw [Machine.cycle_of_next? hn, Instruction.execute, Machine.pop, hp]
      rfl
    rw [step_of_ok hf hcycle]
    exact ⟨rfl, hbelow.symm, rfl⟩

/-- Where the stack has something on it, one operation keeps all below its top, and also the top
unless the operation is a return, which goes on behind it. -/
theorem frame_perform {s : Session} {base rest : List UInt16} {p : UInt16}
    (h : s.machine.stack.live = base ++ p :: rest) {op : Op} (hop : op ≠ .reset) :
    (∃ rest', (s.perform op).after.machine.stack.live = base ++ p :: rest') ∨
    (op = .step ∧ s.next? = some .ret ∧ (∃ redraw, s.step.result = .ok (.executed redraw)) ∧
      s.step.after.machine.stack.live = base ∧ s.step.after.machine.pc = p + 2) := by
  rcases Op.quiet_or_step hop with hq | rfl
  · rw [(s.perform_quiet hq).2.stack]
    exact Or.inl ⟨rest, h⟩
  rw [perform_step_after]
  by_cases hret : s.next? = some .ret
  · rcases List.eq_nil_or_concat rest with rfl | ⟨rest', top, rfl⟩
    · -- Nothing lies above the address: it is what the return takes.
      obtain ⟨hresult, hlive, hpc⟩ := step_of_ret hret h
      exact Or.inr ⟨rfl, hret, ⟨_, hresult⟩, hlive, hpc⟩
    · rw [List.concat_eq_append, ← List.cons_append, ← List.append_assoc] at h
      exact Or.inl ⟨rest', (step_of_ret hret h).2.1⟩
  · left
    rcases s.step_cases with ⟨fault, -, hs⟩ | ⟨-, fault, -, hs⟩ | ⟨ins, flow, m', hn, he, hs⟩
    · rw [hs]
      exact ⟨rest, h⟩
    · rw [hs]
      exact ⟨rest, h⟩
    · rw [hs, Machine.finishCycle_snd]
      cases he with
      | ret _ => exact absurd hn hret
      | call pushed =>
        refine ⟨rest ++ [s.machine.pc], ?_⟩
        rw [CallStack.live_push? pushed, h, List.append_assoc, List.cons_append]
      | jump _ | jumpOffset _ => exact ⟨rest, h⟩
      | awaitKey x =>
        refine ⟨rest, ?_⟩
        rw [(s.machine.awaitKey_keeps x).1]
        exact h
      | straight _ _ same =>
        refine ⟨rest, ?_⟩
        rw [same.stack]
        exact h

theorem frame_runOps {s : Session} {base rest : List UInt16} {p : UInt16}
    (h : s.machine.stack.live = base ++ p :: rest) {ops : List Op} (hr : .reset ∉ ops)
    (hdeep : ∀ done, done <+: ops → base.length < (s.runOps done).machine.stack.depth) :
    ∃ rest', (s.runOps ops).machine.stack.live = base ++ p :: rest' := by
  induction ops generalizing s rest with
  | nil => exact ⟨rest, h⟩
  | cons op ops ih =>
    rw [List.mem_cons, not_or] at hr
    rcases frame_perform h (Ne.symm hr.1) with ⟨rest', h'⟩ | ⟨rfl, -, -, hbase, -⟩
    · refine ih h' hr.2 fun done hdone => ?_
      exact hdeep (op :: done) (List.cons_prefix_cons.mpr ⟨rfl, hdone⟩)
    · -- The frame would be gone, and the stack no deeper than before the call.
      have hlt := hdeep [.step] (List.cons_prefix_cons.mpr ⟨rfl, List.nil_prefix⟩)
      rw [runOps_cons, runOps_nil, perform_step_after, ← CallStack.length_live, hbase] at hlt
      exact absurd hlt (Nat.lt_irrefl _)

/-- A call that does not fail leaves its own address on top. -/
theorem live_of_call {s : Session} {a : Address} {c : Cycle} (h : s.next? = some (.call a))
    (hc : s.step.result = .ok c) :
    s.step.after.machine.stack.live = s.machine.stack.live ++ [s.machine.pc] := by
  rcases s.step_cases with ⟨fault, -, hs⟩ | ⟨-, fault, -, hs⟩ | ⟨ins, flow, m', hn, he, hs⟩
  · rw [hs] at hc
    cases hc
  · rw [hs] at hc
    cases hc
  · rw [h] at hn
    cases hn
    rw [hs, Machine.finishCycle_snd]
    cases he with
    | call pushed => exact CallStack.live_push? pushed
    | straight straight _ _ => cases straight

/-! ## Nested calls -/

/-- A call does not fail as long as a slot is free. -/
theorem result_of_call {s : Session} {a : Address} (h : s.next? = some (.call a))
    (hd : s.machine.stack.depth < 16) : ∃ c, s.step.result = .ok c := by
  obtain ⟨hf, hn⟩ := next?_eq_some.mp h
  have hpush : ∃ m', s.machine.push s.machine.pc = .ok m' := by
    unfold Machine.push
    cases hp : s.machine.stack.push? s.machine.pc with
    | none => exact absurd (CallStack.push?_eq_none.mp hp) (Nat.ne_of_lt hd)
    | some stack => exact ⟨_, rfl⟩
  obtain ⟨m', hm'⟩ := hpush
  have hcycle : ∃ r, s.machine.cycle = .ok r := by
    rw [Machine.cycle_of_next? hn, Instruction.execute, hm']
    exact ⟨_, rfl⟩
  obtain ⟨r, hr⟩ := hcycle
  exact ⟨r.1, by rw [step_of_ok hf (show s.machine.cycle = .ok (r.1, r.2) from hr)]⟩

/-- Calls upon calls leave their addresses on the stack in order. -/
theorem live_of_calls {s : Session} {ops : List Op} (hr : .reset ∉ ops)
    (hcalls : ∀ t ∈ s.stepsOf ops, ∃ a, t.next? = some (.call a))
    (hd : s.machine.stack.depth + (s.stepsOf ops).length ≤ 16) :
    (∀ t ∈ s.stepsOf ops, ∃ c, t.step.result = .ok c) ∧
      (s.runOps ops).machine.stack.live =
        s.machine.stack.live ++ (s.stepsOf ops).map (·.machine.pc) := by
  induction ops generalizing s with
  | nil => simp [stepsOf]
  | cons op ops ih =>
    rw [List.mem_cons, not_or] at hr
    rcases Op.quiet_or_step (Ne.symm hr.1) with hq | rfl
    · rw [stepsOf_cons_quiet s hq] at hcalls hd ⊢
      rw [runOps_cons, ← (s.perform_quiet hq).2.stack]
      refine ih hr.2 hcalls ?_
      rw [(s.perform_quiet hq).2.stack]
      exact hd
    · simp only [stepsOf, List.forall_mem_cons, List.length_cons] at hcalls hd ⊢
      obtain ⟨⟨a, ha⟩, hcalls⟩ := hcalls
      obtain ⟨c, hc⟩ := result_of_call ha (by omega)
      have hlive := live_of_call ha hc
      have hdepth : s.step.after.machine.stack.depth = s.machine.stack.depth + 1 := by
        rw [← CallStack.length_live, hlive, List.length_append, CallStack.length_live]
        rfl
      obtain ⟨hok, hrest⟩ := ih hr.2 hcalls (by rw [hdepth]; omega)
      refine ⟨⟨⟨c, hc⟩, hok⟩, ?_⟩
      rw [runOps_cons, perform_step_after, hrest, hlive]
      simp

/-- Returns upon returns take the addresses off from the top, each going on behind the one that it
takes. -/
theorem landings_of_returns {s : Session} {base sites : List UInt16} {ops : List Op}
    (hlive : s.machine.stack.live = base ++ sites) (hr : .reset ∉ ops)
    (hrets : ∀ t ∈ s.stepsOf ops, t.next? = some .ret)
    (hlength : (s.stepsOf ops).length = sites.length) :
    (∀ t ∈ s.stepsOf ops, ∃ c, t.step.result = .ok c) ∧
      (s.stepsOf ops).map (·.step.after.machine.pc) = (sites.map (· + 2)).reverse ∧
      (s.runOps ops).machine.stack.live = base := by
  induction ops generalizing s sites with
  | nil =>
    have hsites : sites = [] := List.eq_nil_of_length_eq_zero hlength.symm
    subst hsites
    simpa [stepsOf] using hlive
  | cons op ops ih =>
    rw [List.mem_cons, not_or] at hr
    rcases Op.quiet_or_step (Ne.symm hr.1) with hq | rfl
    · rw [stepsOf_cons_quiet s hq] at hrets hlength ⊢
      refine ih ?_ hr.2 hrets hlength
      rw [(s.perform_quiet hq).2.stack]
      exact hlive
    · simp only [stepsOf, List.forall_mem_cons, List.length_cons] at hrets hlength ⊢
      obtain ⟨hret, hrets⟩ := hrets
      rcases List.eq_nil_or_concat sites with rfl | ⟨sites', top, rfl⟩
      · cases hlength
      · rw [List.concat_eq_append] at hlive hlength ⊢
        rw [← List.append_assoc] at hlive
        obtain ⟨hresult, hbelow, hpc⟩ := step_of_ret hret hlive
        rw [List.length_append] at hlength
        obtain ⟨hok, hlandings, hend⟩ := ih hbelow hr.2 hrets (Nat.succ.inj hlength)
        refine ⟨⟨⟨_, hresult⟩, hok⟩, ?_, hend⟩
        rw [List.map_cons, hlandings, hpc]
        simp

/-! ## The whole statement -/

/-- **Calls and returns are bracketed.** Where a step has called, what was on the stack and the
address of the call on top of it stay as long as the stack is deeper than it was, whatever is done
but a reset; and the operation after which it is not is a step that returns, to behind the call,
with the stack as the call found it. Calls nested in each other, as many as there is room for, are
returned from in reverse order. -/
theorem calls_are_bracketed (random : RandomStream) (before : List Op) :
    let s := (fresh random).runOps before
    (∀ a c, s.next? = some (.call a) → s.step.result = .ok c →
      ∀ during, .reset ∉ during →
        (∀ done, done <+: during →
          s.machine.stack.depth < (s.step.after.runOps done).machine.stack.depth) →
        let t := s.step.after.runOps during
        t.machine.stack.live.take (s.machine.stack.depth + 1) =
            s.machine.stack.live ++ [s.machine.pc] ∧
          ∀ op, op ≠ .reset →
            (t.perform op).after.machine.stack.depth ≤ s.machine.stack.depth →
            op = .step ∧ t.next? = some .ret ∧ (∃ redraw, t.step.result = .ok (.executed redraw)) ∧
              t.step.after.machine.stack.live = s.machine.stack.live ∧
              t.step.after.machine.pc.toNat = s.machine.pc.toNat + 2) ∧
    ∀ calls returns, .reset ∉ calls → .reset ∉ returns →
      (∀ t ∈ s.stepsOf calls, ∃ a, t.next? = some (.call a)) →
      (∀ t ∈ (s.runOps calls).stepsOf returns, t.next? = some .ret) →
      ((s.runOps calls).stepsOf returns).length = (s.stepsOf calls).length →
      s.machine.stack.depth + (s.stepsOf calls).length ≤ 16 →
        (∀ t ∈ s.stepsOf (calls ++ returns), ∃ c, t.step.result = .ok c) ∧
        ((s.runOps calls).stepsOf returns).map (·.step.after.machine.pc.toNat) =
          ((s.stepsOf calls).map (·.machine.pc.toNat + 2)).reverse ∧
        (s.runOps (calls ++ returns)).machine.stack.live = s.machine.stack.live := by
  intro s
  refine ⟨?_, ?_⟩
  · intro a c hcall hc during hr hdeep t
    have hlive := live_of_call hcall hc
    have hlength := s.machine.stack.length_live
    rw [← hlength] at hdeep
    obtain ⟨rest, hrest⟩ := frame_runOps hlive hr hdeep
    refine ⟨?_, ?_⟩
    · rw [hrest, ← hlength, List.take_length_add_append]
      rfl
    · intro op hop hback
      rcases frame_perform hrest hop with ⟨rest', hkept⟩ | ⟨rfl, hret, hresult, hbase, hpc⟩
      · -- With the frame still there the stack is deeper than that.
        have hdepth := (t.perform op).after.machine.stack.length_live
        rw [hkept, List.length_append, List.length_cons] at hdepth
        omega
      · refine ⟨rfl, hret, hresult, hbase, ?_⟩
        rw [hpc]
        exact Machine.toNat_pc_add_two (next?_eq_some.mp hcall).2
  · intro calls returns hr hr' hcalls hrets hlength hd
    obtain ⟨hok, hlive⟩ := live_of_calls hr hcalls hd
    obtain ⟨hok', hlandings, hend⟩ := landings_of_returns hlive hr' hrets (by simp [hlength])
    refine ⟨?_, ?_, ?_⟩
    · rw [stepsOf_append]
      exact List.forall_mem_append.mpr ⟨hok, hok'⟩
    · have hnat := congrArg (List.map UInt16.toNat) hlandings
      simp only [List.map_reverse, List.map_map] at hnat
      refine hnat.trans (congrArg List.reverse (List.map_congr_left fun t ht => ?_))
      obtain ⟨a, ha⟩ := hcalls t ht
      exact Machine.toNat_pc_add_two (next?_eq_some.mp ha).2
    · rw [runOps_append]
      exact hend

/-- A call within a call: each is returned from to behind itself, the inner one first. -/
theorem nested_call_returns :
    let s := (fresh (.ofSeed 0)).runOps
      [.load [0x22, 0x06, 0, 0, 0, 0, 0x22, 0x0A, 0x00, 0xEE, 0x00, 0xEE]]
    let t := s.step.after.runOps [.step, .step]
    t.step.after.machine.pc.toNat = s.machine.pc.toNat + 2 ∧
      ((s.runOps [.step, .step]).stepsOf [.step, .step]).map (·.step.after.machine.pc.toNat) =
        ((s.stepsOf [.step, .step]).map (·.machine.pc.toNat + 2)).reverse := by
  have of_run : ∀ before, let s := (fresh (.ofSeed 0)).runOps before
      let t := s.step.after.runOps [.step, .step]
      s.next? = some (.call 0x206) ∧ s.step.result = .ok (.executed false) ∧
        s.step.after.next? = some (.call 0x20A) ∧ s.machine.stack.depth = 0 ∧
        (∀ done ∈ [Op.step, .step].inits,
          s.machine.stack.depth < (s.step.after.runOps done).machine.stack.depth) ∧
        (t.perform .step).after.machine.stack.depth ≤ s.machine.stack.depth ∧
        (∀ t ∈ (s.runOps [.step, .step]).stepsOf [.step, .step], t.next? = some .ret) →
      t.step.after.machine.pc.toNat = s.machine.pc.toNat + 2 ∧
        ((s.runOps [.step, .step]).stepsOf [.step, .step]).map (·.step.after.machine.pc.toNat) =
          ((s.stepsOf [.step, .step]).map (·.machine.pc.toNat + 2)).reverse := by
    rintro before s t ⟨hcall, hresult, hinner, hdepth, hdeep, hback, hrets⟩
    obtain ⟨hframe, hnested⟩ := calls_are_bracketed (.ofSeed 0) before
    obtain ⟨-, hreturn⟩ := hframe _ _ hcall hresult [.step, .step] (by decide) fun done h =>
      hdeep done ((List.mem_inits done _).mpr h)
    obtain ⟨-, -, -, -, hpc⟩ := hreturn .step (by decide) hback
    have hcalls : ∀ t ∈ s.stepsOf [.step, .step], ∃ a, t.next? = some (.call a) :=
      List.forall_mem_cons.mpr ⟨⟨_, hcall⟩, List.forall_mem_singleton.mpr ⟨_, hinner⟩⟩
    obtain ⟨-, hlandings, -⟩ := hnested [.step, .step] [.step, .step] (by decide) (by decide) hcalls
      hrets (by simp [stepsOf]) (by rw [hdepth]; simp [stepsOf])
    exact ⟨hpc, hlandings⟩
  exact of_run _ (by decide +kernel)

end Session

end Chip8
