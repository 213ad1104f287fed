import Chip8.Proofs.Deeds
import Chip8.Proofs.KeyWait

/-!
# The record of a wait

The keys that a machine holds on to are the record of a wait, and they are meant to be there only
while it lasts. One operation can break this: the owner may load a program over the very instruction
that the machine waits in. As long as nobody does, **a machine holds on to keys exactly while its
last step has waited, and it is about to run the instruction of that wait again**
(`Session.record_is_of_open_wait`). No other operation puts the two apart, in whatever order they
come: steps that wait change nothing that is fetched, and all others end the wait or leave it alone.

A program loaded over a wait leaves the record behind (`Session.record_outlives_wait`), and the next
wait for a key is judged by it.
-/

set_option autoImplicit false

namespace Chip8

/-- Does the deed load a program over the instruction that the machine waits in? -/
def Deed.overwritesWait (d : Deed) : Bool :=
  match d.op with
  | .load _ =>
    d.session.machine.heldOnWait.isSome &&
      decide (d.after.machine.next? ≠ d.session.machine.next?)
  | _ => false

namespace Session

/-! ## One operation -/

/-- A step at a wait for a key goes on waiting in it, or ends it and lets go of the keys. -/
theorem step_of_awaitKey {s : Session} {x : Register} (h : s.next? = some (.awaitKey x)) :
    (s.step.result = .ok .awaitingKey ∧ s.step.after.machine.heldOnWait ≠ none ∧
      s.step.after.next? = some (.awaitKey x)) ∨
    ((∃ redraw, s.step.result = .ok (.executed redraw)) ∧
      s.step.after.machine.heldOnWait = none) := by
  obtain ⟨hf, hn⟩ := next?_eq_some.mp h
  cases hlow : (s.machine.keys \ s.machine.heldSinceWait).lowest? with
  | none =>
    rw [step_of_ok hf (Machine.cycle_awaitKey_none hn hlow)]
    exact Or.inl ⟨rfl, Option.some_ne_none _, h⟩
  | some k =>
    rw [step_of_ok hf (Machine.cycle_awaitKey_some hn hlow)]
    exact Or.inr ⟨⟨_, rfl⟩, rfl⟩

/-- A quiet operation leaves the instruction under the counter, unless it loads another there. -/
theorem next?_perform_quiet {s : Session} {op : Op} (hq : op.isQuiet = true)
    (hload : ∀ program, op = .load program →
      (s.perform op).after.machine.next? = s.machine.next?) :
    (s.perform op).after.next? = s.next? := by
  have of_keyOp : op.isKeyOp = true → (s.perform op).after.next? = s.next? := by
    intro hk
    rcases s.perform_keyOp hk with ⟨keys, ha⟩ | ha
    · rw [ha]
      rfl
    · rw [ha]
  cases op with
  | load program =>
    unfold next?
    rw [(s.perform_quiet hq).1, hload program rfl]
  | tick => rfl
  | press key | release key | setKeys keys => exact of_keyOp rfl
  | step | reset => cases hq

/-! ## A history -/

/-- Where an owner's operations have led: there is no record and the last step has not waited, or
there is one and the wait that it is of goes on. -/
theorem record_cases (random : RandomStream) (ops : List Op)
    (h : ∀ d ∈ (fresh random).deeds ops, d.overwritesWait = false) :
    (((fresh random).runOps ops).machine.heldOnWait = none ∧
      (fresh random).lastStep ops ≠ some (.ok .awaitingKey)) ∨
    (((fresh random).runOps ops).machine.heldOnWait ≠ none ∧
      (fresh random).lastStep ops = some (.ok .awaitingKey) ∧
      ∃ before x between, ops = before ++ .step :: between ∧ Waiting random before x between ∧
        ((fresh random).runOps ops).next? = some (.awaitKey x)) := by
  induction ops using List.reverseRecOn with
  | nil => exact Or.inl ⟨rfl, by simp [lastStep]⟩
  | append_singleton ops op ih =>
    rw [deeds_concat, List.forall_mem_append, List.forall_mem_singleton] at h
    obtain ⟨hops, hop⟩ := h
    have hrun : (fresh random).runOps (ops ++ [op]) =
        (((fresh random).runOps ops).perform op).after := runOps_concat _ _ _
    rw [hrun]
    by_cases hreset : op = .reset
    · subst hreset
      refine Or.inl ⟨rfl, ?_⟩
      rw [lastStep_concat]
      simp
    rcases ih hops with ⟨hnone, hlast⟩ | ⟨hheld, hlast, before, x, between, rfl, hw, hnext⟩
    · rcases Op.quiet_or_step hreset with hq | rfl
      · rw [lastStep_concat_quiet _ _ hq]
        exact Or.inl ⟨(heldOnWait_perform_quiet _ hq).mpr hnone, hlast⟩
      · rw [perform_step_after, lastStep_concat]
        by_cases hx : ∃ x, ((fresh random).runOps ops).next? = some (.awaitKey x)
        · -- Here a wait begins.
          obtain ⟨x, hx⟩ := hx
          obtain ⟨hresult, hin⟩ := inWait_nil hx hnone
          obtain ⟨held, hsome, -⟩ := hin.held
          refine Or.inr ⟨by rw [hsome]; exact Option.some_ne_none _, congrArg some hresult, ops, x,
            [], rfl, ?_, hin.next⟩
          exact ⟨⟨hx, hlast⟩, List.not_mem_nil, fun t ht => absurd ht List.not_mem_nil⟩
        · obtain ⟨hnone', hresult⟩ := step_of_no_wait hnone fun x h => hx ⟨x, h⟩
          exact Or.inl ⟨hnone', fun h => hresult (Option.some.inj h)⟩
    · have hs := runOps_wait (fresh random) before between
      rcases Op.quiet_or_step hreset with hq | rfl
      · -- Nothing but a load could take the instruction away, and this one does not.
        have hkept : ∀ program, op = .load program →
            (((fresh random).runOps (before ++ .step :: between)).perform op).after.machine.next? =
              ((fresh random).runOps (before ++ .step :: between)).machine.next? := by
          rintro program rfl
          refine Decidable.byContradiction fun hne => ?_
          have hover : Deed.overwritesWait
              ⟨(fresh random).runOps (before ++ .step :: between), .load program⟩ = true :=
            Bool.and_eq_true_iff.mpr ⟨Option.isSome_iff_ne_none.mpr hheld, decide_eq_true hne⟩
          rw [hop] at hover
          cases hover
        rw [lastStep_concat_quiet _ _ hq]
        refine Or.inr ⟨mt (heldOnWait_perform_quiet _ hq).mp hheld, hlast, before, x, between ++ [op],
          by simp, hw.concat hreset ?_, (next?_perform_quiet hq hkept).trans hnext⟩
        rintro rfl
        cases hq
      · rw [perform_step_after, lastStep_concat]
        rcases step_of_awaitKey hnext with ⟨hresult, hheld', hnext'⟩ | ⟨⟨redraw, hresult⟩, hnone⟩
        · -- Here the wait goes on.
          refine Or.inr ⟨hheld', congrArg some hresult, before, x, between ++ [.step], by simp,
            hw.concat hreset fun _ redraw => ?_, hnext'⟩
          rw [← hs, hresult]
          simp
        · -- Here it ends.
          refine Or.inl ⟨hnone, fun h => ?_⟩
          have hwaited := Option.some.inj h
          rw [hresult] at hwaited
          cases hwaited

/-- **A record is that of an open wait**, whatever an owner does, as long as no program is loaded
over the instruction that the machine waits in. If the machine holds on to keys, then no fault has
stopped it, a wait has begun that no step has ended and no reset, and the next step runs the
instruction of that wait again. It holds on to keys exactly while the last step has waited; so a
wait that begins finds none left over. -/
theorem record_is_of_open_wait (random : RandomStream) (ops : List Op)
    (h : ∀ d ∈ (fresh random).deeds ops, d.overwritesWait = false) :
    let s := (fresh random).runOps ops
    (s.machine.heldOnWait ≠ none →
      s.fault = none ∧ ∃ before x between, ops = before ++ .step :: between ∧
        Waiting random before x between ∧ s.machine.next? = some (.awaitKey x)) ∧
    (s.machine.heldOnWait ≠ none ↔
      (fresh random).lastStep ops = some (.ok .awaitingKey)) := by
  intro s
  rcases record_cases random ops h with
    ⟨hnone, hlast⟩ | ⟨hheld, hlast, before, x, between, hops, hw, hnext⟩
  · exact ⟨fun hheld => absurd hnone hheld, fun hheld => absurd hnone hheld,
      fun hwaited => absurd hwaited hlast⟩
  · obtain ⟨hf, hn⟩ := next?_eq_some.mp hnext
    exact ⟨fun _ => ⟨hf, before, x, between, hops, hw, hn⟩, fun _ => hlast, fun _ => hheld⟩

/-- Key 3 is held when the wait begins and let go of; a program is loaded that has the same wait at
its beginning, and one that is too large is refused. The wait goes on. -/
theorem wait_goes_on_in_new_program :
    let ops : List Op :=
      [.load [0xF1, 0x0A], .press 3, .step, .release 3, .load [0xF1, 0x0A, 0x00, 0xE0],
        .load (List.replicate 3585 0), .tick, .step]
    let s := (fresh (.ofSeed 0)).runOps ops
    (∀ d ∈ (fresh (.ofSeed 0)).deeds ops, d.overwritesWait = false) ∧ s.fault = none ∧
      (∃ x, s.machine.next? = some (.awaitKey x)) ∧
      (fresh (.ofSeed 0)).lastStep ops = some (.ok .awaitingKey) := by
  have of_run : ∀ ops, let s := (fresh (.ofSeed 0)).runOps ops
      (∀ d ∈ (fresh (.ofSeed 0)).deeds ops, d.overwritesWait = false) ∧
        s.machine.heldOnWait ≠ none →
      (∀ d ∈ (fresh (.ofSeed 0)).deeds ops, d.overwritesWait = false) ∧ s.fault = none ∧
        (∃ x, s.machine.next? = some (.awaitKey x)) ∧
        (fresh (.ofSeed 0)).lastStep ops = some (.ok .awaitingKey) := by
    intro ops s hops
    obtain ⟨hkept, hheld⟩ := hops
    obtain ⟨hwait, hlast⟩ := record_is_of_open_wait (.ofSeed 0) ops hkept
    obtain ⟨hf, -, x, -, -, -, hnext⟩ := hwait hheld
    exact ⟨hkept, hf, ⟨x, hnext⟩, hlast.mp hheld⟩
  exact of_run _ (by decide +kernel)

/-- **A record can outlive its wait.** A program is loaded over a wait, and clears the frame where
the wait was. -/
theorem record_outlives_wait :
    ¬ ∀ (seed : UInt64) ops, let s := (fresh (.ofSeed seed)).runOps ops
      s.machine.heldOnWait ≠ none →
        s.fault = none ∧ ∃ x, s.machine.next? = some (.awaitKey x) := by
  intro h
  have hparked := h 0 [.load [0xF1, 0x0A], .step, .load [0x00, 0xE0, 0xF1, 0x0A]]
  have hrun : ((fresh (.ofSeed 0)).runOps
      [.load [0xF1, 0x0A], .step, .load [0x00, 0xE0, 0xF1, 0x0A]]).machine.heldOnWait ≠ none ∧
      ((fresh (.ofSeed 0)).runOps
        [.load [0xF1, 0x0A], .step, .load [0x00, 0xE0, 0xF1, 0x0A]]).machine.next? =
          some .clear := by
    decide +kernel
  obtain ⟨-, x, hx⟩ := hparked hrun.1
  rw [hrun.2] at hx
  cases hx

end Session

end Chip8
