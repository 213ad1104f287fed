import Chip8.Proofs.Painting
import Mathlib.Control.Monad.Basic
import Mathlib.Data.List.Induction

/-!
# What the owner has been told of the frame

An owner who looks at the frame only where a step tells of a change knows the frames of
`Session.toldFrames`. As long as nobody resets the machine this is enough: **the frame is always
the last one told of**, and dark before the first (`Session.frame_eq_last_told`).

It is not enough across a reset. A reset darkens the frame and takes the mark for it away, so that
an owner who goes by the steps keeps a picture that is gone (`Session.reset_is_not_told`).
-/

set_option autoImplicit false

namespace Chip8

namespace Session

/-- The frames that the steps among the operations tell of. -/
def toldFrames (s : Session) (ops : List Op) : List Frame :=
  ((s.stepsOf ops).filter fun t => t.step.result = .ok (.executed true)).map
    fun t => t.step.after.machine.frame

theorem toldFrames_append (s : Session) (ops later : List Op) :
    s.toldFrames (ops ++ later) = s.toldFrames ops ++ (s.runOps ops).toldFrames later := by
  simp only [toldFrames, stepsOf_append, List.filter_append, List.map_append]

theorem toldFrames_quiet (s : Session) {op : Op} (h : op.isQuiet = true) :
    s.toldFrames [op] = [] := by
  rw [toldFrames, stepsOf_cons_quiet s h]
  rfl

theorem toldFrames_step (s : Session) :
    s.toldFrames [.step] =
      if s.step.result = .ok (.executed true) then [s.step.after.machine.frame] else [] := by
  by_cases h : s.step.result = .ok (.executed true)
  · simp [toldFrames, stepsOf, h]
  · simp [toldFrames, stepsOf, h]

/-- One operation: the frame after it has been told of, or it is the frame before. -/
theorem told_perform {s : Session} (hs : s.machine.Sound) {op : Op} (h : op ≠ .reset) :
    (s.perform op).after.machine.frame = (s.toldFrames [op]).getLast?.getD s.machine.frame := by
  rcases Op.quiet_or_step h with hq | rfl
  · rw [toldFrames_quiet s hq, (s.perform_quiet hq).2.frame]
    rfl
  · rw [toldFrames_step, perform_step_after]
    split
    · rfl
    · next hno =>
      have hp : s.paints = false := Bool.eq_false_iff.mpr (mt (executed_true_iff hs.clean).mpr hno)
      rw [step_of_not_paints hp]
      rfl

theorem told_runOps {s : Session} (hs : s.machine.Sound) (ops : List Op) (h : Op.reset ∉ ops) :
    (s.runOps ops).machine.frame = (s.toldFrames ops).getLast?.getD s.machine.frame := by
  induction ops using List.reverseRecOn with
  | nil => rfl
  | append_singleton ops op ih =>
    rw [List.mem_append, List.mem_singleton, not_or] at h
    have hlast : (s.runOps (ops ++ [op])).machine.frame =
        ((s.runOps ops).toldFrames [op]).getLast?.getD (s.runOps ops).machine.frame := by
      rw [runOps_append]
      exact told_perform (sound_runOps_of_sound hs ops) (Ne.symm h.2)
    rw [hlast, ih h.1, toldFrames_append, List.getLast?_append]
    -- The last frame told of is that of the last operation, if it tells of one.
    cases ((s.runOps ops).toldFrames [op]).getLast? with
    | none => rfl
    | some frame => rfl

theorem frame_of_fresh (random : RandomStream) {before : List Op}
    (h : before = [] ∨ ∃ earlier, before = earlier ++ [.reset]) :
    ((fresh random).runOps before).machine.frame = .dark := by
  rcases h with rfl | ⟨earlier, rfl⟩
  · rfl
  · rw [runOps_append]
    rfl

/-- **The frame is the last one told of**, counted from when the machine was switched on or last
reset: the one that was there right after the latest step that told of a change, and dark if no
step has. So a step that tells of none leaves the owner with the right picture. -/
theorem frame_eq_last_told (random : RandomStream) (before stretch : List Op)
    (hbefore : before = [] ∨ ∃ earlier, before = earlier ++ [.reset])
    (hstretch : Op.reset ∉ stretch) :
    let s := (fresh random).runOps before
    let told := (s.toldFrames stretch).getLast?.getD .dark
    (s.runOps stretch).machine.frame = told ∧
      ((s.runOps stretch).step.result = .ok (.executed false) →
        (s.runOps stretch).step.after.machine.frame = told) := by
  intro s told
  have hframe : (s.runOps stretch).machine.frame = told := by
    rw [told_runOps (sound_runOps random before) stretch hstretch, frame_of_fresh random hbefore]
  refine ⟨hframe, fun hstep => ?_⟩
  have hno : (s.runOps stretch).step.result ≠ .ok (.executed true) := by
    rw [hstep]
    decide
  have hsound : (s.runOps stretch).machine.Sound :=
    sound_runOps_of_sound (sound_runOps random before) stretch
  rw [← perform_step_after, told_perform hsound (by decide), toldFrames_step, if_neg hno]
  exact hframe

/-- After a reset, a glyph is drawn and told of, and the step behind it tells of nothing. -/
theorem glyph_stays_told :
    let before : List Op := [.load [0xD0, 0x05], .step] ++ [.reset]
    let stretch : List Op := [.load [0xD0, 0x05, 0x60, 0x01], .step]
    let s := (fresh (.ofSeed 0)).runOps before
    Op.reset ∉ stretch ∧ (s.runOps stretch).step.result = .ok (.executed false) ∧
      (s.toldFrames stretch).length = 1 ∧
      (s.runOps stretch).step.after.machine.frame =
        (s.toldFrames stretch).getLast?.getD .dark := by
  have of_run : ∀ earlier stretch, let s := (fresh (.ofSeed 0)).runOps (earlier ++ [.reset])
      Op.reset ∉ stretch ∧ (s.runOps stretch).step.result = .ok (.executed false) ∧
        (s.toldFrames stretch).length = 1 →
      Op.reset ∉ stretch ∧ (s.runOps stretch).step.result = .ok (.executed false) ∧
        (s.toldFrames stretch).length = 1 ∧
        (s.runOps stretch).step.after.machine.frame =
          (s.toldFrames stretch).getLast?.getD .dark := by
    intro earlier stretch s h
    obtain ⟨hstretch, hstep, hlength⟩ := h
    have hframe :=
      frame_eq_last_told (.ofSeed 0) (earlier ++ [.reset]) stretch (Or.inr ⟨earlier, rfl⟩) hstretch
    exact ⟨hstretch, hstep, hlength, hframe.2 hstep⟩
  exact of_run _ _ (by decide +kernel)

/-- **A reset is not told of.** A glyph has been drawn and told of; a reset takes it away, and the
step behind the reset tells of no change. -/
theorem reset_is_not_told :
    ¬ ∀ (seed : UInt64) ops, let s := (fresh (.ofSeed seed)).runOps ops
      s.step.result = .ok (.executed false) →
        s.step.after.machine.frame =
          ((fresh (.ofSeed seed)).toldFrames ops).getLast?.getD .dark := by
  intro h
  have hglyph := h 0 [.load [0xD0, 0x05], .step, .reset]
  revert hglyph
  decide +kernel

end Session

end Chip8
