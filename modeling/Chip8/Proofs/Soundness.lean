import Chip8.Proofs.History

/-!
# Sound machines

The bounds that hold of a machine whatever program it runs. They depend on each other: the
counter is bounded because popped addresses are, and those are bounded because an address is
pushed only where an instruction has been fetched. **`Machine.Sound` is therefore one invariant
and not five**; `sound_cycle` is its step lemma, with one case for each constructor of
`Machine.Executes`, and `sound_runOps` its run lemma.

A counter may lie past the end of memory, as far as `0x10FE`: that is where the highest address
plus the largest byte leads. The next fetch is what refuses it.
-/

set_option autoImplicit false

namespace Chip8

namespace Machine

/-- The bounds on a machine between two operations. -/
structure Sound (m : Machine) : Prop where
  pc_le : m.pc.toNat ≤ 0x10FE
  depth_le : m.stack.depth ≤ 16
  live_le : ∀ a ∈ m.stack.live, a.toNat ≤ 0x0FFE
  /-- Nobody is owed news of the frame. -/
  clean : m.dirty = false
  /-- A key held since before a wait has not been let go of. -/
  held_down : ∀ held, m.heldOnWait = some held → ∀ k ∈ held, k ∈ m.keys

theorem sound_powerOn (keys : KeySet) (random : RandomStream) : (powerOn keys random).Sound where
  pc_le := by
    show (UInt16.ofNat Memory.programStart).toNat ≤ 0x10FE
    decide
  depth_le := Nat.zero_le _
  live_le := by
    intro a ha
    simp [powerOn, CallStack.live, CallStack.empty] at ha
  clean := rfl
  held_down := by
    intro held hh
    cases hh

/-! ## The step lemma -/

theorem toNat_ofAddress (a : Address) : (UInt16.ofNat a.val).toNat = a.val := by
  have := a.isLt
  rw [UInt16.toNat_ofNat']
  omega

theorem toNat_offset (b : UInt8) (a : Address) :
    (UInt16.ofNat (b.toNat + a.val)).toNat = b.toNat + a.val := by
  have := a.isLt
  have := b.toNat_lt
  rw [UInt16.toNat_ofNat']
  omega

theorem held_of_awaitKey {m : Machine} {x : Register} {held : KeySet}
    (h : (m.awaitKey x).2.heldOnWait = some held) : held = m.heldSinceWait := by
  unfold awaitKey at h
  split at h
  · cases h
  · exact (Option.some.inj h).symm

theorem awaitKey_keeps (m : Machine) (x : Register) :
    (m.awaitKey x).2.stack = m.stack ∧ (m.awaitKey x).2.pc = m.pc ∧
      (m.awaitKey x).2.dirty = m.dirty ∧ (m.awaitKey x).2.keys = m.keys := by
  unfold awaitKey
  split
  · exact ⟨rfl, rfl, rfl, rfl⟩
  · exact ⟨rfl, rfl, rfl, rfl⟩

/-- The stack after an instruction: a pop drops an address, a push adds the counter, and an
address below the bound is all that either can bring. -/
theorem Executes.live_le {m m' : Machine} {ins : Instruction} {flow : Flow}
    (h : Executes m ins flow m') (hpc : m.pc.toNat ≤ 0x0FFE)
    (hl : ∀ a ∈ m.stack.live, a.toNat ≤ 0x0FFE) : ∀ a ∈ m'.stack.live, a.toNat ≤ 0x0FFE := by
  intro b hb
  cases h with
  | ret popped => exact hl b (by rw [CallStack.live_pop? popped]; exact List.mem_append_left _ hb)
  | call pushed =>
    rw [CallStack.live_push? pushed] at hb
    rcases List.mem_append.mp hb with hb | hb
    · exact hl b hb
    · rw [List.mem_singleton.mp hb]
      exact hpc
  | jump _ | jumpOffset _ => exact hl b hb
  | awaitKey x =>
    rw [(m.awaitKey_keeps x).1] at hb
    exact hl b hb
  | straight _ _ same =>
    rw [same.stack] at hb
    exact hl b hb

/-- Where an instruction leaves the counter, and where the end of the cycle will move it, is within
the bound: nothing can wrap around. -/
theorem Executes.pc_add_le {m m' : Machine} {ins : Instruction} {flow : Flow}
    (h : Executes m ins flow m') (hpc : m.pc.toNat ≤ 0x0FFE)
    (hl : ∀ a ∈ m.stack.live, a.toNat ≤ 0x0FFE) : m'.pc.toNat + flow.distance ≤ 0x10FE := by
  have hdistance : flow.distance ≤ 4 := by
    cases flow <;> decide
  -- Straight instructions, waits and returns go on from where a word has been fetched.
  have onward : ∀ {pc : UInt16}, pc.toNat ≤ 0x0FFE → pc.toNat + flow.distance ≤ 0x10FE :=
    fun hle => Nat.le_trans (Nat.add_le_add hle hdistance) (by decide)
  cases h with
  | ret popped =>
    refine onward (hl _ ?_)
    rw [CallStack.live_pop? popped]
    exact List.mem_append_right _ (List.mem_singleton.mpr rfl)
  | call _ | jump _ =>
    refine Nat.le_trans (Nat.le_of_eq (toNat_ofAddress _)) ?_
    exact Nat.le_trans (Nat.le_of_lt (Fin.isLt _)) (by decide)
  | jumpOffset a =>
    refine Nat.le_trans (Nat.le_of_eq (toNat_offset _ _)) ?_
    have ha := a.isLt
    have hb := (m.v.get 0).toNat_lt
    omega
  | awaitKey x =>
    rw [(m.awaitKey_keeps x).2.1]
    exact onward hpc
  | straight _ _ same =>
    rw [same.pc]
    exact onward hpc

theorem Executes.pc_le {m m' : Machine} {ins : Instruction} {flow : Flow}
    (h : Executes m ins flow m') (hpc : m.pc.toNat ≤ 0x0FFE)
    (hl : ∀ a ∈ m.stack.live, a.toNat ≤ 0x0FFE) : (flow.advance m'.pc).toNat ≤ 0x10FE := by
  have hle := h.pc_add_le hpc hl
  rw [Flow.toNat_advance (Nat.lt_of_le_of_lt hle (by decide))]
  exact hle

theorem Executes.held_down {m m' : Machine} {ins : Instruction} {flow : Flow}
    (h : Executes m ins flow m')
    (hh : ∀ held, m.heldOnWait = some held → ∀ k ∈ held, k ∈ m.keys) :
    ∀ held, m'.heldOnWait = some held → ∀ k ∈ held, k ∈ m'.keys := by
  intro held hheld k hk
  rw [h.keys]
  cases h with
  | ret _ | call _ | jump _ | jumpOffset _ => exact hh held hheld k hk
  | awaitKey x =>
    rw [held_of_awaitKey hheld] at hk
    exact (KeySet.mem_inter.mp hk).2
  | straight _ _ same =>
    rw [same.heldOnWait] at hheld
    exact hh held hheld k hk

/-- **A cycle keeps a machine sound.** -/
theorem sound_cycle {m : Machine} {r : Cycle × Machine} (hm : m.Sound) (h : m.cycle = .ok r) :
    r.2.Sound := by
  obtain ⟨ins, flow, m', hn, he, rfl⟩ := cycle_eq_ok h
  have hpc := pc_of_next? hn
  rw [finishCycle_snd]
  refine ⟨he.pc_le hpc hm.live_le, m'.stack.depth_le, he.live_le hpc hm.live_le, ?_,
    he.held_down hm.held_down⟩
  -- The mark survives only a wait, and a wait has not set it.
  show (if flow = .wait then m'.dirty else false) = false
  split
  · next hw =>
    cases he with
    | awaitKey x =>
      rw [(m.awaitKey_keeps x).2.2.1]
      exact hm.clean
    | ret _ | call _ | jump _ | jumpOffset _ => cases hw
    | straight _ onward _ => rcases onward with rfl | rfl <;> cases hw
  · rfl

theorem sound_setKeys {m : Machine} (hm : m.Sound) (keys : KeySet) : (m.setKeys keys).Sound where
  pc_le := hm.pc_le
  depth_le := hm.depth_le
  live_le := hm.live_le
  clean := hm.clean
  held_down := by
    intro held hh k hk
    obtain ⟨old, -, rfl⟩ := Option.map_eq_some_iff.mp hh
    exact (KeySet.mem_inter.mp hk).2

end Machine

/-! ## The run lemma -/

namespace Session

theorem sound_step {s : Session} (hs : s.machine.Sound) : s.step.after.machine.Sound := by
  cases hf : s.fault with
  | some fault =>
    rw [step_of_fault hf]
    exact hs
  | none =>
    cases hc : s.machine.cycle with
    | error fault =>
      rw [step_of_error hf hc]
      exact hs
    | ok r =>
      rw [step_of_ok hf (show s.machine.cycle = .ok (r.1, r.2) from hc)]
      exact Machine.sound_cycle hs hc

theorem sound_perform {s : Session} {op : Op} (hs : s.machine.Sound) :
    (s.perform op).after.machine.Sound := by
  by_cases hreset : op = .reset
  · subst hreset
    exact Machine.sound_powerOn _ _
  rcases Op.quiet_or_step hreset with hq | rfl
  · obtain ⟨m, ht, ha⟩ := s.perform_touched hq
    rw [ha]
    cases ht with
    | loaded _ | ticked => exact ⟨hs.pc_le, hs.depth_le, hs.live_le, hs.clean, hs.held_down⟩
    | keyed keys => exact Machine.sound_setKeys hs keys
    | kept => exact hs
  · exact sound_step hs

theorem sound_runOps_of_sound {s : Session} (hs : s.machine.Sound) (ops : List Op) :
    (s.runOps ops).machine.Sound :=
  runOps_induction (P := fun s => s.machine.Sound) (fun _ _ hs => sound_perform hs) hs ops

theorem sound_runOps (random : RandomStream) (ops : List Op) :
    ((fresh random).runOps ops).machine.Sound :=
  sound_runOps_of_sound (Machine.sound_powerOn _ _) ops

end Session

end Chip8
