import Chip8.Proofs.Painting
import Mathlib.Data.List.Perm.Basic

/-!
# The frame as a count of hits

A drawing is what `draw` goes by: a place, a height, and the memory that the sprite stands in. It
**hits** the pixels of the sprite's set bits, around both edges of the frame (`Drawing.hits`).
`Session.drawings` are the drawings made since the frame was last cleared, by an instruction or by
a reset.

Main statement: **a pixel is lit exactly if they have hit it an odd number of times**
(`Session.lit_iff_odd_hits`). The frame is therefore the same in whichever order the hits were
made. One operation is `Session.showsParity_perform`, and rests on `Frame.pixel_draw`: a drawing
meets a pixel at most once.
-/

set_option autoImplicit false

namespace Chip8

/-- What a drawing goes by. -/
structure Drawing where
  left : UInt8
  top : UInt8
  /-- Where the sprite stands in memory. -/
  start : UInt16
  height : Fin 16
  memory : Memory
deriving DecidableEq

/-- Does the drawing hit the pixel? It does if a set bit of a row of its sprite lies there. -/
def Drawing.hits (d : Drawing) (px : Fin 64) (py : Fin 32) : Bool :=
  decide (∃ (r : Fin d.height) (b : Fin 8),
    px.val = (d.left.toNat + b) % 64 ∧ py.val = (d.top.toNat + r) % 32 ∧
    (d.memory.byte (d.start.toNat + r)).toNat.testBit (7 - b) = true)

/-- The rows of the sprite. -/
def Drawing.sprite (d : Drawing) : List UInt8 := d.memory.slice d.start.toNat d.height

/-- The drawing that `draw` would make now. -/
def Machine.drawing (m : Machine) (x y : Register) (height : Fin 16) : Drawing :=
  ⟨m.v.get x, m.v.get y, m.i, height, m.memory⟩

theorem getMsbD_toBitVec (b : UInt8) {j : Nat} (hj : j < 8) :
    b.toBitVec.getMsbD j = b.toNat.testBit (7 - j) := by
  rw [BitVec.getMsbD, decide_eq_true hj, Bool.true_and]
  rfl

theorem Drawing.hits_eq_lights (d : Drawing) (px : Fin 64) (py : Fin 32) :
    d.hits px py = Frame.lights d.left.toNat d.top.toNat px py d.sprite := by
  rw [Bool.eq_iff_iff, Frame.lights_iff, hits, decide_eq_true_iff, sprite]
  constructor
  · rintro ⟨r, b, hx, hy, hbit⟩
    refine ⟨r, _, Memory.getElem?_slice.mpr ⟨r.isLt, rfl⟩, hy.symm, b, b.isLt, ?_, hx.symm⟩
    rw [getMsbD_toBitVec _ b.isLt]
    exact hbit
  · rintro ⟨r, byte, hbyte, hy, b, hb, hbit, hx⟩
    obtain ⟨hr, rfl⟩ := Memory.getElem?_slice.mp hbyte
    refine ⟨⟨r, hr⟩, ⟨b, hb⟩, hx.symm, hy.symm, ?_⟩
    rw [← getMsbD_toBitVec _ hb]
    exact hbit

/-- A `draw` flips the pixels that its drawing hits. -/
theorem Machine.pixel_painted_draw (m : Machine) (x y : Register) (height : Fin 16) (px : Fin 64)
    (py : Fin 32) :
    (m.painted (.draw x y height)).pixel px py =
      (m.frame.pixel px py ^^ (m.drawing x y height).hits px py) := by
  rw [Drawing.hits_eq_lights]
  apply Frame.pixel_draw
  rw [Memory.length_slice]
  omega

/-! ## The parity -/

/-- Does the frame show of each pixel whether it has been hit an odd number of times? -/
def Frame.ShowsParity (f : Frame) (made : List Drawing) : Prop :=
  ∀ px py, f.pixel px py = decide (made.countP (·.hits px py) % 2 = 1)

theorem Frame.showsParity_dark : dark.ShowsParity [] := by
  intro px py
  rw [pixel_dark]
  rfl

theorem Frame.ShowsParity.concat {f g : Frame} {made : List Drawing} {d : Drawing}
    (h : f.ShowsParity made) (hg : ∀ px py, g.pixel px py = (f.pixel px py ^^ d.hits px py)) :
    g.ShowsParity (made ++ [d]) := by
  intro px py
  rw [hg, h px py, List.countP_append, List.countP_singleton]
  cases d.hits px py with
  | false => simp
  | true =>
    -- One hit more turns both sides around.
    rw [Bool.xor_true, ← decide_not, if_pos rfl]
    exact decide_eq_decide.mpr (by omega)

namespace Session

/-! ## The drawings of a history -/

/-- The drawings since the last clear, one operation later. -/
def drawingsAfter (s : Session) (made : List Drawing) : Op → List Drawing
  | .reset => []
  | .step =>
    match s.step.result with
    | .error _ => made
    | .ok _ =>
      match s.next? with
      | some .clear => []
      | some (.draw x y height) => made ++ [s.machine.drawing x y height]
      | _ => made
  | _ => made

/-- The drawings since the last clear, after some operations. -/
def drawingsFrom (s : Session) (made : List Drawing) : List Op → List Drawing
  | [] => made
  | op :: ops => drawingsFrom (s.perform op).after (s.drawingsAfter made op) ops

/-- The drawings made since the last clear or reset, or since a fresh machine was switched on. -/
def drawings (random : RandomStream) (ops : List Op) : List Drawing :=
  (fresh random).drawingsFrom [] ops

/-! ## The parity along a history -/

/-- A step adds a drawing to the frame, darkens it, or leaves it. -/
theorem showsParity_step {s : Session} {made : List Drawing}
    (h : s.machine.frame.ShowsParity made) :
    s.step.after.machine.frame.ShowsParity (s.drawingsAfter made .step) := by
  unfold drawingsAfter
  cases hr : s.step.result with
  | error fault =>
    rw [(step_of_result_error hr).1]
    exact h
  | ok c =>
    obtain ⟨ins, flow, m', hn, -⟩ := step_eq_ok hr
    rw [frame_of_step hn hr, hn]
    cases ins with
    | clear => exact Frame.showsParity_dark
    | draw x y height => exact h.concat (s.machine.pixel_painted_draw x y height)
    | _ => exact h

/-- **One operation**: the frame goes on showing the parity. -/
theorem showsParity_perform {s : Session} {made : List Drawing}
    (h : s.machine.frame.ShowsParity made) (op : Op) :
    (s.perform op).after.machine.frame.ShowsParity (s.drawingsAfter made op) := by
  by_cases hreset : op = .reset
  · subst hreset
    exact Frame.showsParity_dark
  rcases Op.quiet_or_step hreset with hq | rfl
  · have hmade : s.drawingsAfter made op = made := by
      cases op with
      | step | reset => cases hq
      | load _ | tick | press _ | release _ | setKeys _ => rfl
    rw [hmade, (s.perform_quiet hq).2.frame]
    exact h
  · exact showsParity_step h

theorem showsParity_runOps {s : Session} {made : List Drawing}
    (h : s.machine.frame.ShowsParity made) (ops : List Op) :
    (s.runOps ops).machine.frame.ShowsParity (s.drawingsFrom made ops) := by
  induction ops generalizing s made with
  | nil => exact h
  | cons op ops ih => exact ih (showsParity_perform h op)

theorem showsParity_fresh (random : RandomStream) (ops : List Op) :
    ((fresh random).runOps ops).machine.frame.ShowsParity (drawings random ops) := by
  have hdark : (fresh random).machine.frame.ShowsParity [] := Frame.showsParity_dark
  exact showsParity_runOps hdark ops

/-- **A pixel is lit exactly if it has been hit an odd number of times** by the drawings made since
the last clear or reset. So two histories in which the same hits have been made, in whichever
order, have led to the same frame. -/
theorem lit_iff_odd_hits (random : RandomStream) (ops : List Op) :
    (∀ px py, ((fresh random).runOps ops).machine.frame.pixel px py = true ↔
      (drawings random ops).countP (·.hits px py) % 2 = 1) ∧
    ∀ random' ops',
      ((drawings random ops).map Drawing.hits).Perm ((drawings random' ops').map Drawing.hits) →
      ((fresh random).runOps ops).machine.frame = ((fresh random').runOps ops').machine.frame := by
  refine ⟨fun px py => ?_, fun random' ops' hperm => Frame.ext_pixel fun px py => ?_⟩
  · rw [showsParity_fresh random ops px py, decide_eq_true_iff]
  · have hcount := hperm.countP_eq fun hits => hits px py
    rw [List.countP_map, List.countP_map] at hcount
    rw [showsParity_fresh random ops px py, showsParity_fresh random' ops' px py]
    exact congrArg (fun n => decide (n % 2 = 1)) hcount

/-- A glyph is drawn and then the upper rows of it; or, behind a clear, the rows and then the
glyph. -/
theorem rows_over_glyph_or_under :
    let program : List UInt8 := [0xD0, 0x05, 0xD0, 0x04, 0x00, 0xE0, 0xD0, 0x04, 0xD0, 0x05]
    let onTop : List Op := [.load program, .step, .step]
    let below : List Op := [.load program, .step, .step, .step, .step, .step]
    let random := RandomStream.ofSeed 0
    (drawings random onTop).map (·.height) = [5, 4] ∧
      (drawings random below).map (·.height) = [4, 5] ∧
      ((fresh random).runOps onTop).machine.frame =
        ((fresh random).runOps below).machine.frame := by
  -- The drawings are compared without the memory around their sprites.
  have of_run : ∀ random onTop below, let sketch := fun d : Drawing => (d.left, d.top, d.sprite)
      (drawings random onTop).map (·.height) = [5, 4] ∧
        (drawings random below).map (·.height) = [4, 5] ∧
        ((drawings random onTop).map sketch).Perm ((drawings random below).map sketch) →
      (drawings random onTop).map (·.height) = [5, 4] ∧
        (drawings random below).map (·.height) = [4, 5] ∧
        ((fresh random).runOps onTop).machine.frame =
          ((fresh random).runOps below).machine.frame := by
    intro random onTop below sketch h
    obtain ⟨hontop, hbelow, hperm⟩ := h
    have hits_eq : Drawing.hits =
        (fun p px py => Frame.lights p.1.toNat p.2.1.toNat px py p.2.2) ∘ sketch := by
      funext d px py
      exact d.hits_eq_lights px py
    refine ⟨hontop, hbelow, (lit_iff_odd_hits random onTop).2 random below ?_⟩
    rw [hits_eq, ← List.map_map, ← List.map_map]
    exact hperm.map _
  exact of_run _ _ _ (by decide +kernel)

end Session

end Chip8
