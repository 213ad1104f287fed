import Chip8.Proofs.Arithmetic
import Chip8.Proofs.Sprites

/-!
# Drawing over drawings

Drawing flips pixels, so a sprite drawn over itself is gone again, and of several drawings it makes
no difference which comes first (`Frame.drawn_drawn`, `Frame.drawn_comm`). For instructions there is
one thing to see to: each leaves a flag in `VF`, and where `VF` is told the place by, the next
drawing goes somewhere else. A `draw` is **steady** if it is not told the place by `VF` and finds its
sprite in memory. What a steady draw goes by, the *stage*, is not touched by steady draws, and it is
enough that whatever else happens between them does not touch it either.

**A steady draw done twice leaves the frame as it was, and steady draws may be done in any order**
(`Instruction.draws_undo_and_commute`).
-/

set_option autoImplicit false

namespace Chip8

namespace Frame

/-- The frame with one drawing more. -/
def drawn (f : Frame) (d : Drawing) : Frame := f.draw d.left.toNat d.top.toNat d.sprite

theorem pixel_drawn (f : Frame) (d : Drawing) (px : Fin 64) (py : Fin 32) :
    (f.drawn d).pixel px py = (f.pixel px py ^^ d.hits px py) := by
  have hlength : d.sprite.length ≤ 32 := by
    rw [Drawing.sprite, Memory.length_slice]
    omega
  rw [drawn, pixel_draw _ _ _ _ _ _ hlength, Drawing.hits_eq_lights]

theorem drawn_drawn (f : Frame) (d : Drawing) : (f.drawn d).drawn d = f := by
  refine ext_pixel fun px py => ?_
  rw [pixel_drawn, pixel_drawn, Bool.xor_assoc, Bool.xor_self, Bool.xor_false]

theorem drawn_comm (f : Frame) (d e : Drawing) : (f.drawn d).drawn e = (f.drawn e).drawn d := by
  refine ext_pixel fun px py => ?_
  simp only [pixel_drawn]
  exact Bool.xor_right_comm _ _ _

theorem collides_iff_hits (f : Frame) (d : Drawing) :
    f.collides d.left.toNat d.top.toNat d.sprite = true ↔
      ∃ px py, d.hits px py = true ∧ f.pixel px py = true := by
  simp only [collides_iff, ← Drawing.hits_eq_lights, and_comm]

/-- Over itself, a drawing collides where the frame was dark. -/
theorem collides_drawn_iff (f : Frame) (d : Drawing) :
    (f.drawn d).collides d.left.toNat d.top.toNat d.sprite = true ↔
      ∃ px py, d.hits px py = true ∧ f.pixel px py = false := by
  rw [collides_iff_hits]
  refine exists_congr fun px => exists_congr fun py => and_congr_right fun hhits => ?_
  rw [pixel_drawn, hhits, Bool.xor_true, Bool.not_eq_true']

end Frame

/-- A drawing hits something if its sprite is not blank. -/
theorem Drawing.exists_hits_iff (d : Drawing) :
    (∃ px py, d.hits px py = true) ↔
      ∃ r, r < d.height.val ∧ d.memory.byte (d.start.toNat + r) ≠ 0 := by
  simp only [Drawing.hits_eq_lights, Frame.exists_lights_iff]
  constructor
  · rintro ⟨b, hb, hne⟩
    obtain ⟨r, hr⟩ := List.getElem?_of_mem hb
    obtain ⟨hlt, hbyte⟩ := Memory.getElem?_slice.mp hr
    exact ⟨r, hlt, hbyte ▸ hne⟩
  · rintro ⟨r, hlt, hne⟩
    exact ⟨_, List.mem_of_getElem? (Memory.getElem?_slice.mpr ⟨hlt, rfl⟩), hne⟩

/-! ## The stage -/

namespace Machine

/-- Two machines in which a steady draw goes by the same: the registers but `VF`, the index and
memory. -/
structure SameStage (m m' : Machine) : Prop where
  v : ∀ k, k ≠ 0xF → m'.v.get k = m.v.get k
  i : m'.i = m.i
  memory : m'.memory = m.memory

/-- A `draw` that is not told the place by `VF` and whose sprite lies in memory. -/
inductive SteadyDraw (m : Machine) : Instruction → Prop
  | draw {x y : Register} {height : Fin 16} (hx : x ≠ 0xF) (hy : y ≠ 0xF)
      (fits : m.i.toNat + height ≤ 4096) : SteadyDraw m (.draw x y height)

/-- Runs instructions one after the other. -/
def executeAll (m : Machine) : List Instruction → Except Fault Machine
  | [] => .ok m
  | ins :: rest =>
    match ins.execute m with
    | .ok (_, m') => m'.executeAll rest
    | .error fault => .error fault

/-- Instructions run one after the other. Behind each of them anything may happen that keeps the
stage and the frame. -/
inductive Performs : Machine → List Instruction → Machine → Prop
  | nil (m : Machine) : Performs m [] m
  | cons {m m₁ m₂ m' : Machine} {ins : Instruction} {rest : List Instruction} {flow : Flow}
      (ran : ins.execute m = .ok (flow, m₁)) (stage : SameStage m₁ m₂)
      (frame : m₂.frame = m₁.frame) (onward : Performs m₂ rest m') : Performs m (ins :: rest) m'

theorem SameStage.refl (m : Machine) : SameStage m m := ⟨fun _ _ => rfl, rfl, rfl⟩

theorem SameStage.trans {m₁ m₂ m₃ : Machine} (h : SameStage m₁ m₂) (h' : SameStage m₂ m₃) :
    SameStage m₁ m₃ :=
  ⟨fun k hk => (h'.v k hk).trans (h.v k hk), h'.i.trans h.i, h'.memory.trans h.memory⟩

theorem SameStage.drawing {m m' : Machine} (h : SameStage m m') {x y : Register} (hx : x ≠ 0xF)
    (hy : y ≠ 0xF) (height : Fin 16) : m'.drawing x y height = m.drawing x y height := by
  rw [Machine.drawing, h.v x hx, h.v y hy, h.i, h.memory]
  rfl

theorem SameStage.steadyDraw {m m' : Machine} (h : SameStage m m') {ins : Instruction}
    (hins : m.SteadyDraw ins) : m'.SteadyDraw ins := by
  cases hins with
  | draw hx hy fits =>
    rw [← h.i] at fits
    exact .draw hx hy fits

theorem Performs.of_executeAll {m m' : Machine} {program : List Instruction}
    (h : m.executeAll program = .ok m') : m.Performs program m' := by
  induction program generalizing m with
  | nil =>
    cases h
    exact .nil _
  | cons ins rest ih =>
    unfold executeAll at h
    split at h
    · next flow m₁ hexecute => exact .cons hexecute (.refl m₁) rfl (ih h)
    · cases h

end Machine

namespace Instruction

open Machine

/-- What a steady draw does: it makes its drawing and tells of collisions, and the stage stays. -/
theorem execute_steadyDraw {m : Machine} (x y : Register) {height : Fin 16}
    (h : m.i.toNat + height ≤ 4096) :
    let d := m.drawing x y height
    ∃ m', (draw x y height).execute m = .ok (.next, m') ∧ m'.frame = m.frame.drawn d ∧
      m.SameStage m' ∧ m'.FlagTells (m.frame.collides d.left.toNat d.top.toNat d.sprite = true) := by
  intro d
  refine ⟨_, execute_draw h, rfl, ⟨fun k hk => ?_, rfl, rfl⟩, ?_⟩
  · exact m.get_setReg_of_ne hk _
  · exact m.flagTells_setFlag _

theorem executeAll_steady {m : Machine} {draws : List Instruction}
    (h : ∀ ins ∈ draws, m.SteadyDraw ins) : ∃ m', m.executeAll draws = .ok m' := by
  induction draws generalizing m with
  | nil => exact ⟨m, rfl⟩
  | cons ins rest ih =>
    obtain ⟨hins, hrest⟩ := List.forall_mem_cons.mp h
    cases hins with
    | draw hx hy fits =>
      obtain ⟨m₁, hexecute, -, hstage, -⟩ := execute_steadyDraw _ _ fits
      obtain ⟨m', hm'⟩ := ih fun other hother => hstage.steadyDraw (hrest other hother)
      refine ⟨m', ?_⟩
      rw [executeAll, hexecute]
      exact hm'

/-- The frame that an instruction makes of a frame, on the stage of a machine. -/
def paintOn (m : Machine) (f : Frame) (ins : Instruction) : Frame :=
  ({ m with frame := f } : Machine).painted ins

theorem paintOn_draw (m : Machine) (f : Frame) (x y : Register) (height : Fin 16) :
    paintOn m f (draw x y height) = f.drawn (m.drawing x y height) := rfl

theorem painted_of_sameStage {m m' : Machine} {ins : Instruction} (h : m.SameStage m')
    (hins : m.SteadyDraw ins) : m'.painted ins = paintOn m m'.frame ins := by
  cases hins with
  | @draw x y height hx hy fits =>
    rw [paintOn_draw, ← h.drawing hx hy]
    rfl

theorem paintOn_comm {m : Machine} {ins ins' : Instruction} (hins : m.SteadyDraw ins)
    (hins' : m.SteadyDraw ins') (f : Frame) :
    paintOn m (paintOn m f ins) ins' = paintOn m (paintOn m f ins') ins := by
  cases hins with
  | draw hx hy fits =>
    cases hins' with
    | draw hx' hy' fits' =>
      simp only [paintOn_draw]
      exact f.drawn_comm _ _

/-- All that steady draws do to the frame is known on the stage that they begin on. -/
theorem frame_of_performs {stage m m' : Machine} {draws : List Instruction}
    (h : m.Performs draws m') (hstage : stage.SameStage m)
    (hsteady : ∀ ins ∈ draws, stage.SteadyDraw ins) :
    m'.frame = draws.foldl (paintOn stage) m.frame := by
  induction h with
  | nil m => rfl
  | @cons m m₁ m₂ m' ins rest flow ran kept frame onward ih =>
    obtain ⟨hins, hrest⟩ := List.forall_mem_cons.mp hsteady
    have hpainted : m₂.frame = paintOn stage m.frame ins := by
      rw [frame, (execute_painted ran).1, painted_of_sameStage hstage hins]
    have hbehind : stage.SameStage m₂ := by
      refine hstage.trans (SameStage.trans ?_ kept)
      cases hstage.steadyDraw hins with
      | draw hx hy fits =>
        obtain ⟨m₁', hexecute, -, hkept, -⟩ := execute_steadyDraw _ _ fits
        rw [hexecute] at ran
        cases ran
        exact hkept
    rw [ih hbehind hrest, hpainted, List.foldl_cons]

/-- **A steady draw undoes itself, and steady draws commute.** Done once it collides where it meets
a lit pixel, done again where it had met a dark one; so a sprite that is not blank collides at least
once. Between the two, as between the draws of a list, anything may happen that keeps the stage and
the frame. -/
theorem draws_undo_and_commute (m : Machine) :
    (∀ (x y : Register) (height : Fin 16), x ≠ 0xF → y ≠ 0xF → m.i.toNat + height ≤ 4096 →
      let d := m.drawing x y height
      ∃ once, (draw x y height).execute m = .ok (.next, once) ∧
        once.FlagTells (∃ px py, d.hits px py = true ∧ m.frame.pixel px py = true) ∧
        ∀ between, once.SameStage between → between.frame = once.frame →
          ∃ twice, (draw x y height).execute between = .ok (.next, twice) ∧
            twice.frame = m.frame ∧
            twice.FlagTells (∃ px py, d.hits px py = true ∧ m.frame.pixel px py = false) ∧
            (once.v.get 0xF = 1 ∨ twice.v.get 0xF = 1 ↔
              ∃ r, r < height.val ∧ m.memory.byte (m.i.toNat + r) ≠ 0)) ∧
    ∀ draws draws' : List Instruction, draws.Perm draws' → (∀ ins ∈ draws, m.SteadyDraw ins) →
      (∃ m', m.executeAll draws' = .ok m' ∧ m.Performs draws' m') ∧
      ∀ m₁ m₂, m.Performs draws m₁ → m.Performs draws' m₂ → m₁.frame = m₂.frame := by
  refine ⟨fun x y height hx hy fits => ?_, fun draws draws' hperm hsteady => ⟨?_, ?_⟩⟩
  · intro d
    obtain ⟨once, honce, hframe, hstage, hflag⟩ := execute_steadyDraw x y fits
    rw [Frame.collides_iff_hits] at hflag
    refine ⟨once, honce, hflag, fun between hkept hsame => ?_⟩
    have hbetween := hstage.trans hkept
    have hdrawing : between.drawing x y height = d := hbetween.drawing hx hy height
    have hfits : between.i.toNat + height ≤ 4096 := by
      rw [hbetween.i]
      exact fits
    obtain ⟨twice, htwice, hframe', -, hflag'⟩ := execute_steadyDraw x y hfits
    rw [hdrawing, hsame, hframe] at hframe' hflag'
    rw [Frame.collides_drawn_iff] at hflag'
    refine ⟨twice, htwice, hframe'.trans (m.frame.drawn_drawn d), hflag', ?_⟩
    rw [hflag.eq_one_iff, hflag'.eq_one_iff]
    refine Iff.trans ?_ d.exists_hits_iff
    -- A pixel that is hit was either lit or dark.
    constructor
    · rintro (⟨px, py, hhits, -⟩ | ⟨px, py, hhits, -⟩)
      · exact ⟨px, py, hhits⟩
      · exact ⟨px, py, hhits⟩
    · rintro ⟨px, py, hhits⟩
      cases hpixel : m.frame.pixel px py with
      | true => exact Or.inl ⟨px, py, hhits, hpixel⟩
      | false => exact Or.inr ⟨px, py, hhits, hpixel⟩
  · have hsteady' : ∀ ins ∈ draws', m.SteadyDraw ins := fun ins hins =>
      hsteady ins (hperm.mem_iff.mpr hins)
    obtain ⟨m', hm'⟩ := executeAll_steady hsteady'
    exact ⟨m', hm', .of_executeAll hm'⟩
  · intro m₁ m₂ h₁ h₂
    have hsteady' : ∀ ins ∈ draws', m.SteadyDraw ins := fun ins hins =>
      hsteady ins (hperm.mem_iff.mpr hins)
    rw [frame_of_performs h₁ (.refl m) hsteady, frame_of_performs h₂ (.refl m) hsteady']
    exact hperm.foldl_eq' (fun ins hins ins' hins' f =>
      paintOn_comm (hsteady ins hins) (hsteady ins' hins') f) m.frame

/-- A glyph over a frame with one pixel lit, the counter moved on, and the glyph again; and the same
glyph before or after the upper rows of it at another place. -/
theorem glyph_over_itself :
    let m : Machine :=
      { Machine.fresh (.ofSeed 0) with
        v := (Vector.replicate 16 0).set 1 3
        frame := Frame.dark.flipRow 0 (Row.single 0) }
    let glyph := draw 0 0 5
    let rows := draw 1 0 3
    ((0 : Register) ≠ 0xF ∧ m.i.toNat + 5 ≤ 4096) ∧ (∀ ins ∈ [glyph, rows], m.SteadyDraw ins) ∧
      (∃ once twice, glyph.execute m = .ok (.next, once) ∧
        glyph.execute { once with pc := once.pc + 2 } = .ok (.next, twice) ∧
        twice.frame = m.frame ∧ once.v.get 0xF = 1 ∧ twice.v.get 0xF = 1) ∧
      ∃ m₁ m₂, m.executeAll [glyph, rows] = .ok m₁ ∧ m.executeAll [rows, glyph] = .ok m₂ ∧
        m₁.frame = m₂.frame := by
  intro m glyph rows
  have hfits : (0 : Register) ≠ 0xF ∧ m.i.toNat + 5 ≤ 4096 := by decide
  have hsteady : ∀ ins ∈ [glyph, rows], m.SteadyDraw ins := by
    simp only [List.forall_mem_cons, List.not_mem_nil, false_implies, implies_true, and_true]
    exact ⟨.draw (by decide) (by decide) (by decide), .draw (by decide) (by decide) (by decide)⟩
  obtain ⟨hundo, hcommute⟩ := draws_undo_and_commute m
  have hpixels : ((m.drawing 0 0 5).hits 0 0 = true ∧ m.frame.pixel 0 0 = true) ∧
      (m.drawing 0 0 5).hits 1 0 = true ∧ m.frame.pixel 1 0 = false := by decide +kernel
  refine ⟨hfits, hsteady, ?_, ?_⟩
  · obtain ⟨once, honce, hfirst, hagain⟩ := hundo 0 0 5 hfits.1 hfits.1 hfits.2
    have hstage : once.SameStage { once with pc := once.pc + 2 } := ⟨fun _ _ => rfl, rfl, rfl⟩
    obtain ⟨twice, htwice, hframe, hsecond, -⟩ := hagain _ hstage rfl
    exact ⟨once, twice, honce, htwice, hframe, hfirst.1 ⟨0, 0, hpixels.1⟩,
      hsecond.1 ⟨1, 0, hpixels.2⟩⟩
  · obtain ⟨⟨m₁, h₁, hrun₁⟩, -⟩ := hcommute _ _ (.refl [glyph, rows]) hsteady
    obtain ⟨⟨m₂, h₂, hrun₂⟩, hsame⟩ := hcommute _ _ (.swap rows glyph []) hsteady
    exact ⟨m₁, m₂, h₁, h₂, hsame m₁ m₂ hrun₁ hrun₂⟩

/-- Told the place by `VF`, the second drawing goes one column to the right of the first. -/
example :
    let m : Machine :=
      { Machine.fresh (.ofSeed 0) with frame := Frame.dark.flipRow 0 (Row.single 0) }
    (m.executeAll [draw 0xF 0 5, draw 0xF 0 5]).map (·.frame == m.frame) = .ok false := by
  decide +kernel

end Instruction

end Chip8
